import Ironhide.Model.Reads
import Ironhide.Proofs.FromChain
import Ironhide.Proofs.Keys

namespace Ironhide.Proofs.Truncated
open Model Lib.Bytes Lib.Buffer Lib.Program PacketUtils SfcUtilities Framing FromChain

variable {φ : Type}

/-- The endpoint a datagram from the chain arrives at. -/
inductive Side where
  | ingress
  | egress
  deriving DecidableEq, Repr

def Side.handler : Side → UdpArgs φ → Handler φ Unit
  | .ingress => Ingress.managePktFromChain
  | .egress => Egress.managePktFromChain

def Side.reads : Side → UdpArgs φ → List Extent
  | .ingress => Ingress.managePktFromChainReads
  | .egress => Egress.managePktFromChainReads

/-- The datagram is acknowledged, and that is all. -/
def Dropped (side : Side) (args : UdpArgs φ) : Prop :=
  side.handler args = .op (.sendto args.socketFd ack args.clientAddress) fun _ => .ret ()

/-- All that is read of the buffer was received, and the length of the payload is
what the headers leave over. -/
structure Bounded (side : Side) (args : UdpArgs φ) : Prop where
  reads : ∀ x ∈ side.reads args, x.Within args.pktLen
  payload : ((Egress.payloadLen args.pktLen (payloadOffset args)).toNat : Int) =
    args.pktLen - payloadOffset args

def ihl (pkt : List Byte) : Nat := ((read8 pkt 24).extractLsb' 0 4).toNat * 4

def doff (pkt : List Byte) : Nat := ((read8 pkt (24 + ihl pkt + 12)).extractLsb' 4 4).toNat * 4

/-- The protocol byte is TCP's, and not behind the end of the IP header. -/
def IsTcp (pkt : List Byte) : Prop := 9 < ihl pkt ∧ read8 pkt 33 = 6

/-- The datagram is as long as the fixed parts of its headers and as what they declare. -/
def HoldsHeaders (pkt : List Byte) (n : Nat) : Prop :=
  44 ≤ n ∧ (IsTcp pkt → 44 + ihl pkt ≤ n ∧ 24 + ihl pkt + doff pkt ≤ n) ∧
    (¬ IsTcp pkt → 32 + ihl pkt ≤ n)

section Sizes
variable (pkt : List Byte)

theorem ipPktLen_drop : ipPktLen (pkt.drop headerSize) = ihl pkt := by
  rw [ipPktLen_first, read8_drop]
  rfl

theorem tcpPktLen_drop : tcpPktLen (pkt.drop headerSize) = doff pkt := by
  have hbyte : read8 (((pkt.drop headerSize).drop (ihl pkt)).take tcpHdrLen) 12 =
      read8 pkt (24 + ihl pkt + 12) := by
    rw [read8_take (by decide), read8_drop, read8_drop, ← Nat.add_assoc]
    rfl
  simp only [tcpPktLen, ipPktLen_drop, Tcphdr.read, hbyte]
  rfl

/-- A byte the header copy leaves out is zero, which is not TCP's number. -/
theorem chainPrt_tcp_iff {args : UdpArgs φ} : chainPrt args = .tcp ↔ IsTcp args.pkt := by
  have hprt : chainPrt args = .tcp ↔ read8 ((args.pkt.drop headerSize).take (ihl args.pkt)) 9 = 6 := by
    simp only [chainPrt, connType, retrieveIpHeader, ipPktLen_drop, Iphdr.read]
    split
    · rename_i h
      exact iff_of_true rfl h
    · rename_i h
      exact iff_of_false (by decide) h
  rw [hprt, IsTcp]
  by_cases hlen : 9 < ihl args.pkt
  · rw [read8_take hlen, read8_drop]
    exact ⟨fun h => ⟨hlen, h⟩, fun h => h.2⟩
  · have hzero : read8 ((args.pkt.drop headerSize).take (ihl args.pkt)) 9 = 0 := by
      rw [read8, List.getD_eq_getElem?_getD, List.getElem?_eq_none]
      · rfl
      · rw [List.length_take]
        omega
    rw [hzero]
    exact iff_of_false (by decide) fun h => hlen h.1

theorem ihl_le : ihl pkt ≤ 60 := by
  have hlt := ((read8 pkt 24).extractLsb' 0 4).isLt
  rw [ihl]
  omega

theorem doff_le : doff pkt ≤ 60 := by
  have hlt := ((read8 pkt (24 + ihl pkt + 12)).extractLsb' 4 4).isLt
  rw [doff]
  omega

end Sizes

theorem payloadOffset_cases (args : UdpArgs φ) :
    (IsTcp args.pkt ∧ chainPrt args = .tcp ∧
      payloadOffset args = 24 + (ihl args.pkt + doff args.pkt)) ∨
    (¬ IsTcp args.pkt ∧ chainPrt args = .udp ∧ payloadOffset args = 24 + (ihl args.pkt + 8)) := by
  cases hprt : chainPrt args with
  | tcp =>
    refine .inl ⟨chainPrt_tcp_iff.mp hprt, rfl, ?_⟩
    rw [payloadOffset_tcp hprt, tcpPacketHeaderSize, ipPktLen_drop, tcpPktLen_drop]
    rfl
  | udp =>
    refine .inr ⟨fun htcp => ?_, rfl, ?_⟩
    · rw [chainPrt_tcp_iff.mpr htcp] at hprt
      cases hprt
    · rw [payloadOffset_udp hprt, udpPacketHeaderSize, ipPktLen_drop]
      rfl

/-- The subtraction wraps exactly when the headers are longer than the datagram. -/
theorem payloadLen_toNat {n off : Nat} (hn : n ≤ bufferSize) (hoff : off ≤ bufferSize) :
    (Egress.payloadLen n off).toNat = if off ≤ n then n - off else 2^64 + n - off := by
  rw [bufferSize] at hn hoff
  rw [Egress.payloadLen, BitVec.toNat_sub, BitVec.toNat_ofNat, BitVec.toNat_ofNat]
  split <;> omega

/-- The payload is in the received bytes when it begins there: otherwise its
length has wrapped. -/
theorem payload_within_iff {n off : Nat} (hn : n ≤ bufferSize) (hoff : off ≤ bufferSize) :
    (⟨off, (Egress.payloadLen n off).toNat⟩ : Extent).Within n ↔ off ≤ n := by
  rw [Extent.within_mk, payloadLen_toNat hn hoff]
  rw [bufferSize] at hn hoff
  split <;> omega

section Bounds
variable {args : UdpArgs φ}

theorem payloadOffset_le : payloadOffset args ≤ bufferSize := by
  have hihl := ihl_le args.pkt
  have hdoff := doff_le args.pkt
  rw [bufferSize]
  rcases payloadOffset_cases args with ⟨_, _, hoff⟩ | ⟨_, _, hoff⟩ <;> omega

/-- What is read of a TCP packet ends with the IP header, the fixed part of the
TCP header and the payload. -/
theorem reads_tcp_iff (side : Side) (hn : args.pktLen ≤ bufferSize) (h : chainPrt args = .tcp) :
    (∀ x ∈ side.reads args, x.Within args.pktLen) ↔
      44 ≤ args.pktLen ∧ 44 + ihl args.pkt ≤ args.pktLen ∧ payloadOffset args ≤ args.pktLen := by
  have hpay := payload_within_iff hn (payloadOffset_le : payloadOffset args ≤ bufferSize)
  have hoff : headerSize + tcpPacketHeaderSize (args.pkt.drop headerSize) = payloadOffset args :=
    (payloadOffset_tcp h).symm
  rw [chainPrt] at h
  cases side with
  | ingress =>
    simp only [Side.reads, Ingress.managePktFromChainReads, h, retrieveHeaderReads,
      retrieveIpHeaderReads, tcpPacketHeaderSizeReads, payloadReads, hoff, ipPktLen_drop,
      List.forall_mem_append, List.forall_mem_map, List.forall_mem_cons, List.not_mem_nil, false_implies, implies_true, and_true,
      Extent.shift_within, hpay, Extent.within_mk]
    dsimp only [headerSize, ipHdrLen, tcpHdrLen]
    omega
  | egress =>
    have h' : connType (retrieveIpUdpHeader (args.pkt.drop headerSize)).value.1.protocol = .tcp := h
    simp only [Side.reads, Egress.managePktFromChainReads, Egress.manageExitingTcpPacketsReads, h',
      retrieveHeaderReads, retrieveIpUdpHeaderReads, tcpPacketHeaderSizeReads, payloadReads, hoff,
      ipPktLen_drop, List.forall_mem_append, List.forall_mem_map, List.forall_mem_cons,
      List.not_mem_nil, false_implies, implies_true, and_true, Extent.shift_within, hpay, Extent.within_mk]
    dsimp only [headerSize, ipHdrLen, udpHdrLen, tcpHdrLen]
    omega

/-- What is read of a UDP packet ends with the IP header and the payload. -/
theorem reads_udp_iff (side : Side) (hn : args.pktLen ≤ bufferSize) (h : chainPrt args = .udp) :
    (∀ x ∈ side.reads args, x.Within args.pktLen) ↔
      44 ≤ args.pktLen ∧ payloadOffset args ≤ args.pktLen := by
  have hpay := payload_within_iff hn (payloadOffset_le : payloadOffset args ≤ bufferSize)
  have hoff : headerSize + udpPacketHeaderSize (args.pkt.drop headerSize) = payloadOffset args :=
    (payloadOffset_udp h).symm
  have hihl : payloadOffset args = 24 + (ihl args.pkt + 8) := by
    rw [← hoff, udpPacketHeaderSize, ipPktLen_drop]
    rfl
  rw [chainPrt] at h
  cases side with
  | ingress =>
    simp only [Side.reads, Ingress.managePktFromChainReads, h, retrieveHeaderReads,
      retrieveIpHeaderReads, udpPacketHeaderSizeReads, payloadReads, hoff, ipPktLen_drop,
      List.forall_mem_append, List.forall_mem_map, List.forall_mem_cons, List.not_mem_nil, false_implies, implies_true, and_true,
      Extent.shift_within, hpay, Extent.within_mk]
    dsimp only [headerSize, ipHdrLen]
    omega
  | egress =>
    have h' : connType (retrieveIpUdpHeader (args.pkt.drop headerSize)).value.1.protocol = .udp := h
    simp only [Side.reads, Egress.managePktFromChainReads, Egress.manageExitingUdpPacketsReads, h',
      retrieveHeaderReads, retrieveIpUdpHeaderReads, udpPacketHeaderSizeReads, payloadReads, hoff,
      ipPktLen_drop, List.forall_mem_append, List.forall_mem_map, List.forall_mem_cons,
      List.not_mem_nil, false_implies, implies_true, and_true, Extent.shift_within, hpay, Extent.within_mk]
    dsimp only [headerSize, ipHdrLen, udpHdrLen]
    omega

theorem Bounded.of_offset {side : Side} (hn : args.pktLen ≤ bufferSize)
    (hreads : ∀ x ∈ side.reads args, x.Within args.pktLen)
    (hoff : payloadOffset args ≤ args.pktLen) : Bounded side args := by
  refine ⟨hreads, ?_⟩
  rw [payloadLen_toNat hn payloadOffset_le, if_pos hoff]
  omega

/-- The four places that read and subtract all come down to the same bounds. -/
theorem bounded_iff (side : Side) (hn : args.pktLen ≤ bufferSize) :
    Bounded side args ↔ HoldsHeaders args.pkt args.pktLen := by
  rcases payloadOffset_cases args with ⟨htcp, hprt, hoff⟩ | ⟨hudp, hprt, hoff⟩
  · have hreads := reads_tcp_iff side hn hprt
    constructor
    · intro h
      obtain ⟨hip, htransport, hpayload⟩ := hreads.mp h.reads
      exact ⟨hip, fun _ => ⟨htransport, by omega⟩, fun h => absurd htcp h⟩
    · intro h
      obtain ⟨htransport, hpayload⟩ := h.2.1 htcp
      have hoff' : payloadOffset args ≤ args.pktLen := by omega
      exact .of_offset hn (hreads.mpr ⟨h.1, htransport, hoff'⟩) hoff'
  · have hreads := reads_udp_iff side hn hprt
    constructor
    · intro h
      obtain ⟨hip, hpayload⟩ := hreads.mp h.reads
      exact ⟨hip, fun h => absurd h hudp, fun _ => by omega⟩
    · intro h
      have hpayload := h.2.2 hudp
      have hoff' : payloadOffset args ≤ args.pktLen := by omega
      exact .of_offset hn (hreads.mpr ⟨h.1, hoff'⟩) hoff'

/-- No length is checked, so nothing is ever dropped. -/
theorem not_dropped (side : Side) (args : UdpArgs φ) : ¬ Dropped side args := by
  intro h
  have hcont {o : Op φ} {k k' : Reply φ o → Handler φ Unit}
      (hops : (Prog.op o k : Handler φ Unit) = .op o k') : k = k' :=
    eq_of_heq (Prog.op.inj hops).2
  cases side with
  | ingress =>
    by_cases hfits : Fits args
    · cases congrFun (hcont ((managePktFromChain_eq args hfits).symm.trans h)) 0
    · cases congrFun (hcont ((managePktFromChain_overrun args hfits).symm.trans h)) 0
  | egress =>
    have hnext := congrFun (hcont h) 0
    by_cases hin : (retrieveIpUdpHeader (args.pkt.drop headerSize)).inBounds = true
    · rw [checked_ok hin] at hnext
      cases hnext
    · rw [checked_overrun hin] at hnext
      cases hnext

/-- A datagram from the chain is dropped or handled within its bounds exactly when
it is not too short for its headers. -/
theorem within_bounds_iff (side : Side) (h : args.pktLen ≤ bufferSize) :
    Dropped side args ∨ Bounded side args ↔ HoldsHeaders args.pkt args.pktLen := by
  rw [← bounded_iff side h]
  exact or_iff_right (not_dropped side args)

end Bounds

section Congr
variable {args : UdpArgs φ} {m m' : List Byte}

theorem retrieveHeader_congr (h : AgreeOn retrieveHeaderReads m m') :
    retrieveHeader m = retrieveHeader m' :=
  congrArg SfcHeader.read (h _ List.mem_cons_self)

theorem ipPktLen_congr (h : (⟨0, ipHdrLen⟩ : Extent).read m = (⟨0, ipHdrLen⟩ : Extent).read m') :
    ipPktLen m = ipPktLen m' :=
  congrArg (fun hdr => (Iphdr.read hdr).ihl.toNat * 4) h

theorem retrieveIpHeader_congr (h : AgreeOn (retrieveIpHeaderReads m) m m') :
    retrieveIpHeader m = retrieveIpHeader m' := by
  have hlen : ipPktLen m = ipPktLen m' := ipPktLen_congr (h _ List.mem_cons_self)
  have hhdr : m.take (ipPktLen m) = m'.take (ipPktLen m) :=
    h ⟨0, ipPktLen m⟩ (by simp [retrieveIpHeaderReads])
  rw [retrieveIpHeader, retrieveIpHeader, ← hlen, hhdr]

theorem udpPacketHeaderSize_congr (h : AgreeOn udpPacketHeaderSizeReads m m') :
    udpPacketHeaderSize m = udpPacketHeaderSize m' := by
  rw [udpPacketHeaderSize, udpPacketHeaderSize, ipPktLen_congr (h _ List.mem_cons_self)]

theorem tcpPacketHeaderSize_congr (h : AgreeOn (tcpPacketHeaderSizeReads m) m m') :
    tcpPacketHeaderSize m = tcpPacketHeaderSize m' := by
  have hlen : ipPktLen m = ipPktLen m' := ipPktLen_congr (h _ List.mem_cons_self)
  have htcp : (m.drop (ipPktLen m)).take tcpHdrLen = (m'.drop (ipPktLen m)).take tcpHdrLen :=
    h ⟨ipPktLen m, tcpHdrLen⟩ (by simp [tcpPacketHeaderSizeReads])
  rw [tcpPacketHeaderSize, tcpPacketHeaderSize, tcpPktLen, tcpPktLen, ← hlen, htcp]

theorem strncpy_congr {n off len : Nat} (hlen : len = (Egress.payloadLen n off).toNat)
    (h : AgreeOn (payloadReads n off) m m') :
    strncpy (m.drop off) len = strncpy (m'.drop off) len := by
  subst hlen
  have hpay : (m.drop off).take _ = (m'.drop off).take _ := h _ List.mem_cons_self
  rw [strncpy, strncpy, hpay]

/-- The closure for UDP packets only depends on the bytes it reads. -/
theorem manageExitingUdpPackets_congr (self : Self) {n : Nat} (ce : ConnectionEntry) (sock : φ)
    (datagram buffer : List Byte) (fuel : Nat)
    (h : AgreeOn (Egress.manageExitingUdpPacketsReads m n) m m') :
    Egress.manageExitingUdpPackets self m n ce sock datagram buffer fuel =
      Egress.manageExitingUdpPackets self m' n ce sock datagram buffer fuel := by
  simp only [Egress.manageExitingUdpPacketsReads, agreeOn_append, agreeOn_shift] at h
  obtain ⟨⟨hsize, hheader⟩, hpay⟩ := h
  have hoff := udpPacketHeaderSize_congr hsize
  rw [hoff] at hpay
  have hdata := strncpy_congr rfl hpay
  simp only [Egress.manageExitingUdpPackets, forgeIpUdpPkt, retrieveHeader_congr hheader, hoff, hdata]

theorem manageExitingTcpPackets_congr [Descriptor φ] (self : Self) {n : Nat} (ce : ConnectionEntry)
    (socket : φ) (received : List Byte) (fuel : Nat)
    (h : AgreeOn (Egress.manageExitingTcpPacketsReads m n) m m') :
    Egress.manageExitingTcpPackets self m n ce socket received fuel =
      Egress.manageExitingTcpPackets self m' n ce socket received fuel := by
  simp only [Egress.manageExitingTcpPacketsReads, agreeOn_append, agreeOn_shift] at h
  obtain ⟨⟨hheader, hsize⟩, hpay⟩ := h
  have hoff := tcpPacketHeaderSize_congr hsize
  rw [hoff] at hpay
  have hdata := strncpy_congr rfl hpay
  rw [Egress.manageExitingTcpPackets, Egress.manageExitingTcpPackets, retrieveHeader_congr hheader,
    hoff, hdata]

theorem payloadFrom_congr {off : Nat} (hn : args.pktLen ≤ bufferSize) (hoff : off ≤ bufferSize)
    (h : AgreeOn (payloadReads args.pktLen off) args.pkt m') :
    Ingress.payloadFrom args off = Ingress.payloadFrom { args with pkt := m' } off := by
  by_cases hle : off ≤ args.pktLen
  · have hpay : (args.pkt.drop off).take (args.pktLen - off) =
        (m'.drop off).take (args.pktLen - off) := by
      have hread := h _ List.mem_cons_self
      rwa [payloadLen_toNat hn hoff, if_pos hle] at hread
    have hle' : off ≤ ({ args with pkt := m' } : UdpArgs φ).pktLen := hle
    rw [payloadFrom_ok hle, payloadFrom_ok hle', List.drop_take, List.drop_take, hpay]
  · have hle' : ¬ off ≤ ({ args with pkt := m' } : UdpArgs φ).pktLen := hle
    rw [payloadFrom_short hle, payloadFrom_short hle']

def rebuffer (args : UdpArgs φ) (m : List Byte) : UdpArgs φ := { args with pkt := m }

theorem deliverTcp_congr (hn : args.pktLen ≤ bufferSize) (sock : φ × SockaddrIn)
    (hoff : headerSize + tcpPacketHeaderSize (args.pkt.drop headerSize) ≤ bufferSize)
    (hsize : AgreeOn (tcpPacketHeaderSizeReads (args.pkt.drop headerSize))
      (args.pkt.drop headerSize) (m'.drop headerSize))
    (hpay : AgreeOn (payloadReads args.pktLen
      (headerSize + tcpPacketHeaderSize (args.pkt.drop headerSize))) args.pkt m') :
    Ingress.deliverTcp args sock = Ingress.deliverTcp (rebuffer args m') sock := by
  rw [Ingress.deliverTcp, Ingress.deliverTcp, payloadFrom_congr hn hoff hpay,
    tcpPacketHeaderSize_congr hsize]
  rfl

theorem deliverUdp_congr (hn : args.pktLen ≤ bufferSize) (header : SfcHeader)
    (sock : φ × SockaddrIn)
    (hoff : headerSize + udpPacketHeaderSize (args.pkt.drop headerSize) ≤ bufferSize)
    (hsize : AgreeOn udpPacketHeaderSizeReads (args.pkt.drop headerSize) (m'.drop headerSize))
    (hpay : AgreeOn (payloadReads args.pktLen
      (headerSize + udpPacketHeaderSize (args.pkt.drop headerSize))) args.pkt m') :
    Ingress.deliverUdp args header sock = Ingress.deliverUdp (rebuffer args m') header sock := by
  rw [Ingress.deliverUdp, Ingress.deliverUdp, payloadFrom_congr hn hoff hpay,
    udpPacketHeaderSize_congr hsize]
  rfl

theorem chainPrt_congr (hip : AgreeOn (retrieveIpHeaderReads (args.pkt.drop headerSize))
      (args.pkt.drop headerSize) (m'.drop headerSize)) :
    chainPrt (rebuffer args m') = chainPrt args := by
  rw [chainPrt, chainPrt, retrieveIpHeader_congr hip]
  rfl

theorem chainEntry_congr (hheader : AgreeOn retrieveHeaderReads args.pkt m')
    (hip : AgreeOn (retrieveIpHeaderReads (args.pkt.drop headerSize))
      (args.pkt.drop headerSize) (m'.drop headerSize)) :
    chainEntry (rebuffer args m') = chainEntry args := by
  rw [chainEntry, chainEntry, chainPrt_congr hip, retrieveHeader_congr hheader]
  rfl

/-- The ingress only depends on the bytes it reads. -/
theorem ingress_congr (hn : args.pktLen ≤ bufferSize)
    (h : AgreeOn (Side.ingress.reads args) args.pkt m') :
    Ingress.managePktFromChain args = Ingress.managePktFromChain (rebuffer args m') := by
  have hoff : payloadOffset args ≤ bufferSize := payloadOffset_le
  simp only [Side.reads, Ingress.managePktFromChainReads, agreeOn_append, agreeOn_shift] at h
  obtain ⟨⟨hheader, hip⟩, hrest⟩ := h
  have hhdr := retrieveHeader_congr hheader
  have hiphdr := retrieveIpHeader_congr hip
  have hprt := chainPrt_congr hip
  have hentry := chainEntry_congr hheader hip
  have hfits : Fits (rebuffer args m') ↔ Fits args := by
    rw [Fits, Fits, hiphdr]
    rfl
  have hdeliver (sock : φ × SockaddrIn) : deliver args sock = deliver (rebuffer args m') sock := by
    rw [deliver, deliver, hprt]
    cases hp : chainPrt args with
    | tcp =>
      rw [payloadOffset_tcp hp] at hoff
      rw [chainPrt] at hp
      simp only [hp, agreeOn_append, agreeOn_shift] at hrest
      exact deliverTcp_congr hn sock hoff hrest.1 hrest.2
    | udp =>
      rw [payloadOffset_udp hp] at hoff
      rw [chainPrt] at hp
      simp only [hp, agreeOn_append, agreeOn_shift] at hrest
      rw [hhdr]
      exact deliverUdp_congr hn _ sock hoff hrest.1 hrest.2
  by_cases h : Fits args
  · rw [managePktFromChain_eq args h, managePktFromChain_eq _ (hfits.mpr h), hentry]
    simp only [hdeliver]
    rfl
  · rw [managePktFromChain_overrun args h, managePktFromChain_overrun _ (mt hfits.mp h)]
    rfl

/-- Whatever else the buffer holds, a datagram that holds its headers is handled
in the same way: by the ingress, by the egress as far as the key and the path go,
and on either path of the egress. -/
theorem decided_by_received [Descriptor φ] (self : Self) (hn : args.pktLen ≤ bufferSize)
    (h : HoldsHeaders args.pkt args.pktLen) (hm : args.pkt.take args.pktLen = m'.take args.pktLen) :
    Ingress.managePktFromChain args = Ingress.managePktFromChain (rebuffer args m') ∧
    chainPrt (rebuffer args m') = chainPrt args ∧
    chainEntry (rebuffer args m') = chainEntry args ∧
    (chainPrt args = .tcp → ∀ ce (socket : φ) received fuel,
      Egress.manageExitingTcpPackets self args.pkt args.pktLen ce socket received fuel =
        Egress.manageExitingTcpPackets self m' args.pktLen ce socket received fuel) ∧
    (chainPrt args = .udp → ∀ ce (sock : φ) datagram buffer fuel,
      Egress.manageExitingUdpPackets self args.pkt args.pktLen ce sock datagram buffer fuel =
        Egress.manageExitingUdpPackets self m' args.pktLen ce sock datagram buffer fuel) := by
  have hagree (side : Side) : AgreeOn (side.reads args) args.pkt m' :=
    .of_take ((bounded_iff side hn).mpr h).reads hm
  have hingress := hagree .ingress
  have hegress := hagree .egress
  simp only [Side.reads, Ingress.managePktFromChainReads, agreeOn_append, agreeOn_shift] at hingress
  rw [Side.reads, Egress.managePktFromChainReads, agreeOn_append] at hegress
  refine ⟨ingress_congr hn (hagree .ingress), chainPrt_congr hingress.1.2,
    chainEntry_congr hingress.1.1 hingress.1.2, ?_, ?_⟩
  · intro hprt ce socket received fuel
    have hprt' : connType (retrieveIpUdpHeader (args.pkt.drop headerSize)).value.1.protocol = .tcp :=
      hprt
    simp only [hprt'] at hegress
    exact manageExitingTcpPackets_congr self ce socket received fuel hegress.2
  · intro hprt ce sock datagram buffer fuel
    have hprt' : connType (retrieveIpUdpHeader (args.pkt.drop headerSize)).value.1.protocol = .udp :=
      hprt
    simp only [hprt'] at hegress
    exact manageExitingUdpPackets_congr self ce sock datagram buffer fuel hegress.2

end Congr

section Sample
open Keys

def cutFrame : List Byte := (sampleConnection.header 1 0).bytes ++ plainIp 17

/-- Of 44 bytes it takes a payload of 2^64 - 8. -/
theorem cut_frame_overread :
    (Egress.payloadLen cutFrame.length (payloadOffset (udpArgs cutFrame))).toNat = 2^64 - 8 ∧
    ¬ (Dropped .ingress (udpArgs cutFrame) ∨ Bounded .ingress (udpArgs cutFrame)) ∧
    ¬ (Dropped .egress (udpArgs cutFrame) ∨ Bounded .egress (udpArgs cutFrame)) := by
  have hlen : (Egress.payloadLen cutFrame.length (payloadOffset (udpArgs cutFrame))).toNat =
      2^64 - 8 := by decide +kernel
  have hunbounded (side : Side) : ¬ Bounded side (udpArgs cutFrame) := by
    intro h
    have hoff : payloadOffset (udpArgs cutFrame) = 52 := by decide +kernel
    have hpayload := h.payload
    change ((Egress.payloadLen cutFrame.length _).toNat : Int) = cutFrame.length - _ at hpayload
    rw [hlen, hoff] at hpayload
    exact absurd hpayload (by decide)
  exact ⟨hlen, not_or.mpr ⟨not_dropped _ _, hunbounded _⟩, not_or.mpr ⟨not_dropped _ _, hunbounded _⟩⟩

theorem udpFrame_within_bounds :
    Dropped .egress (udpArgs udpFrame) ∨ Bounded .egress (udpArgs udpFrame) ↔
      HoldsHeaders udpFrame udpFrame.length :=
  within_bounds_iff .egress (by decide +kernel)

end Sample

end Ironhide.Proofs.Truncated
