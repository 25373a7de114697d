import Ironhide.Model.Egress
import Ironhide.Proofs.Framing
import Ironhide.Proofs.Observed

namespace Ironhide.Proofs.Exiting
open Model Lib.Bytes Lib.Program PacketUtils SfcUtilities Framing Observed

section Forged
variable (data : List Byte) (dataLen : Nat) (sourceIp destIp : String)
  (sourcePort destPort : BitVec 16) (datagram : List Byte)

def withPayload : List Byte :=
  writeAt (writeAt datagram 0 (List.replicate 4096 0)) (ipHdrLen + udpHdrLen) (strncpy data dataLen)

theorem zeroed_length (hd : datagram.length = bufferSize) :
    (writeAt datagram 0 (List.replicate 4096 0)).length = bufferSize := by
  rw [writeAt_length, hd]
  rw [List.length_replicate, hd, bufferSize]
  omega

theorem withPayload_length (hd : datagram.length = bufferSize)
    (hn : ipHdrLen + udpHdrLen + dataLen ≤ bufferSize) :
    (withPayload data dataLen datagram).length = bufferSize := by
  rw [withPayload, writeAt_length, zeroed_length datagram hd]
  rwa [strncpy_length, zeroed_length datagram hd]

/-- After the payload only the two headers and their checksums are written. -/
theorem forged_eq : ∃ c₁ c₂ : BitVec 16,
    forgeIpUdpPkt data dataLen sourceIp destIp sourcePort destPort datagram =
      writeAt (writeAt (writeAt (writeAt (withPayload data dataLen datagram)
        0 (forgedIphdr dataLen sourceIp destIp).bytes) 10 (le16 c₁))
        20 (forgedUdphdr dataLen sourcePort destPort).bytes) 26 (le16 c₂) :=
  ⟨_, _, rfl⟩

/-- Filling in the headers and checksums touches neither the payload nor what
is behind it, and leaves the total length in the IP header. -/
theorem forged_parts (h : 28 ≤ (withPayload data dataLen datagram).length) :
    (forgeIpUdpPkt data dataLen sourceIp destIp sourcePort destPort datagram).drop 28 =
      (withPayload data dataLen datagram).drop 28 ∧
    read16 (forgeIpUdpPkt data dataLen sourceIp destIp sourcePort destPort datagram) 2 =
      (forgedIphdr dataLen sourceIp destIp).totLen := by
  obtain ⟨c₁, c₂, hf⟩ := forged_eq data dataLen sourceIp destIp sourcePort destPort datagram
  rw [hf]
  generalize withPayload data dataLen datagram = m at h ⊢
  generalize hi : forgedIphdr dataLen sourceIp destIp = iph
  generalize forgedUdphdr dataLen sourcePort destPort = udph
  have hip : iph.bytes.length = 20 := rfl
  have hudp : udph.bytes.length = 8 := rfl
  have h₁ : (writeAt m 0 iph.bytes).length = m.length := writeAt_length _ _ _ (by omega)
  have h₂ : (writeAt (writeAt m 0 iph.bytes) 10 (le16 c₁)).length = m.length := by
    rw [writeAt_length _ _ _ (by rw [le16_length]; omega), h₁]
  have h₃ : (writeAt (writeAt (writeAt m 0 iph.bytes) 10 (le16 c₁)) 20 udph.bytes).length =
      m.length := by
    rw [writeAt_length _ _ _ (by omega), h₂]
  constructor
  · rw [drop_writeAt _ _ _ _ (by rw [le16_length]; omega) (by simp),
      drop_writeAt _ _ _ _ (by omega) (by omega),
      drop_writeAt _ _ _ _ (by rw [le16_length]; omega) (by simp),
      drop_writeAt _ _ _ _ (by omega) (by omega)]
  · rw [read16_writeAt _ (by omega) (by omega), read16_writeAt _ (by omega) (by omega),
      read16_writeAt _ (by omega) (by omega)]
    exact join16 iph.totLen

/-- The payload area of the forged datagram is what `strncpy` made of the payload. -/
theorem forged_payload (hd : datagram.length = bufferSize) (hn : 28 + dataLen < bufferSize) :
    let forged := forgeIpUdpPkt data dataLen sourceIp destIp sourcePort destPort datagram
    (forged.take (read16 forged 2).toNat).drop 28 = strncpy data dataLen := by
  have hlen : (withPayload data dataLen datagram).length = bufferSize :=
    withPayload_length data dataLen datagram hd (Nat.le_of_lt hn)
  obtain ⟨hdrop, htot⟩ := forged_parts data dataLen sourceIp destIp sourcePort destPort datagram
    (by omega)
  have htake : (forgedIphdr dataLen sourceIp destIp).totLen.toNat = 28 + dataLen := by
    simp only [forgedIphdr, BitVec.toNat_ofNat]
    exact Nat.mod_eq_of_lt hn
  have hself : (withPayload data dataLen datagram).drop 28 = strncpy data dataLen ++
      (writeAt datagram 0 (List.replicate 4096 0)).drop (28 + (strncpy data dataLen).length) := by
    apply drop_writeAt_self
    rw [zeroed_length datagram hd, bufferSize]
    decide
  simp only [htot, htake, List.drop_take, hdrop, hself, Nat.add_sub_cancel_left]
  exact List.take_left' (strncpy_length data dataLen)

end Forged

/-- A packet in a receive buffer: SFC header, IP header, transport header and
payload, with `stale` bytes behind them. -/
structure ChainPacket (Transport : List Byte → Prop) where
  hdr : SfcHeader
  ip : List Byte
  transport : List Byte
  payload : List Byte
  stale : List Byte
  ipHeader : IpHeader ip
  transportHeader : Transport transport
  fits : headerSize + ip.length + transport.length + payload.length ≤ bufferSize

namespace ChainPacket

variable {Transport : List Byte → Prop} (p : ChainPacket Transport)

def buffer : List Byte := p.hdr.bytes ++ (p.ip ++ (p.transport ++ (p.payload ++ p.stale)))

def len : Nat := headerSize + p.ip.length + p.transport.length + p.payload.length

theorem header : retrieveHeader p.buffer = p.hdr := retrieveHeader_append _ _

/-- The wrapping subtraction of the header sizes does not wrap. -/
theorem payloadLen_eq {pktCalc : Nat} (h : pktCalc = headerSize + (p.ip.length + p.transport.length)) :
    (Egress.payloadLen p.len pktCalc).toNat = p.payload.length := by
  have hfits := p.fits
  have hlen : p.len = pktCalc + p.payload.length := by
    rw [h, len]
    omega
  rw [bufferSize] at hfits
  rw [Egress.payloadLen, BitVec.toNat_sub, BitVec.toNat_ofNat, BitVec.toNat_ofNat, hlen]
  omega

theorem payload_eq {pktCalc : Nat} (h : pktCalc = headerSize + (p.ip.length + p.transport.length)) :
    p.buffer.drop pktCalc = p.payload ++ p.stale := by
  rw [h]
  exact drop_headers p.hdr p.ip p.transport (p.payload ++ p.stale)

theorem tcpOffset (p : ChainPacket TcpHeader) :
    headerSize + tcpPacketHeaderSize (p.buffer.drop headerSize) =
      headerSize + (p.ip.length + p.transport.length) := by
  rw [buffer, drop_bytes_append, tcpPacketHeaderSize, p.ipHeader.ipPktLen,
    p.transportHeader.tcpPktLen p.ipHeader]

theorem udpOffset (p : ChainPacket UdpHeader) :
    headerSize + udpPacketHeaderSize (p.buffer.drop headerSize) =
      headerSize + (p.ip.length + p.transport.length) := by
  rw [buffer, drop_bytes_append, udpPacketHeaderSize, p.ipHeader.ipPktLen, p.transportHeader]

end ChainPacket

variable {φ : Type}

/-- The world refuses a socket, a connection or its registration. -/
def Refused : Event (Op φ) (Reply φ) → Prop
  | ⟨.rawSocket _, r⟩ => r = none
  | ⟨.bind _ _, r⟩ => r = false
  | ⟨.connectToServer _ _, r⟩ => r = none
  | ⟨.updateEntry .., r⟩ => ∃ x, r = .error x
  | _ => False

/-- In every run of `p` one output is written, and the part of it that `area`
names is the payload, or nothing is written because the world refuses. -/
def Transparent (area : List Byte → List Byte) (payload : List Byte) (p : Handler φ Unit) : Prop :=
  ∀ es out, p.Runs es out →
    (outputs es).map area = [payload] ∨ (outputs es = [] ∧ ∃ e ∈ es, Refused e)

section Tcp
variable [Descriptor φ] (self : Self) (p : ChainPacket TcpHeader) (ce : ConnectionEntry)
  (socket : φ) (received : List Byte) (fuel : Nat)

/-- On a well-formed packet: find the connection, write the copy, read the answer. -/
theorem manageExitingTcpPackets_eq :
    Egress.manageExitingTcpPackets self p.buffer p.len ce socket received fuel =
      Egress.destination p.hdr ce socket >>= fun s =>
        Prog.op (Op.send s (strncpy (p.payload ++ p.stale) p.payload.length)) fun _ =>
          Egress.exitingTcpLoop self p.hdr s fuel received := by
  have hsize := p.payloadLen_eq p.tcpOffset
  have hfits := p.fits
  have hsmall : ¬ p.payload.length ≥ 2^63 := by
    rw [bufferSize] at hfits
    omega
  simp only [Egress.manageExitingTcpPackets, p.header, hsize, hsmall, if_false]
  rw [p.payload_eq p.tcpOffset, hsize]
  rfl

/-- Finding the connection writes nothing, and fails only when the connection or
its registration is refused. -/
theorem destination_outputs {es : List (Event (Op φ) (Reply φ))} {out : Except Stop φ}
    (h : (Egress.destination p.hdr ce socket).Runs es out) :
    outputs es = [] ∧ ∀ e, out = .error e → ∃ e ∈ es, Refused e := by
  obtain ⟨rfl, rfl⟩ | ⟨dst, port, rfl, rfl⟩ | ⟨dst, port, s, sockin, x, rfl, rfl⟩ |
    ⟨dst, port, s, sockin, rfl, rfl⟩ := Egress.runs_destination _ _ _ h
  · exact ⟨rfl, by simp⟩
  · exact ⟨rfl, fun _ _ => ⟨_, List.mem_cons_self, rfl⟩⟩
  · exact ⟨rfl, fun _ _ => ⟨_, List.mem_cons_of_mem _ List.mem_cons_self, x, rfl⟩⟩
  · exact ⟨rfl, by simp⟩

theorem manageExitingTcpPackets_outputs {es : List (Event (Op φ) (Reply φ))} {out : Except Stop Unit}
    (h : (Egress.manageExitingTcpPackets self p.buffer p.len ce socket received fuel).Runs es out) :
    outputs es = [strncpy (p.payload ++ p.stale) p.payload.length] ∨
      (outputs es = [] ∧ ∃ e ∈ es, Refused e) := by
  rw [manageExitingTcpPackets_eq, Prog.runs_bind] at h
  rcases h with ⟨x, hd, rfl⟩ | ⟨s, es₁, es₂, rfl, hd, h⟩
  · obtain ⟨hout, href⟩ := destination_outputs p ce socket hd
    exact Or.inr ⟨hout, href x rfl⟩
  · obtain ⟨hout, _⟩ := destination_outputs p ce socket hd
    obtain ⟨r, es₃, rfl, hloop⟩ := Prog.runs_op.mp h
    have hquiet : outputs es₃ = [] := outputs_quiet (hloop.all
      (Egress.exitingTcpLoop_all (P := fun o => written o = none) self p.hdr s rfl (fun _ => rfl)
        (fun _ _ _ => rfl) fuel received))
    have hsend : outputs (⟨.send s (strncpy (p.payload ++ p.stale) p.payload.length), r⟩ :: es₃) =
        strncpy (p.payload ++ p.stale) p.payload.length :: outputs es₃ := rfl
    exact Or.inl (by rw [outputs_append, hout, hsend, hquiet, List.nil_append])

end Tcp

theorem grant_not_refused (fd : φ) (hop : Address) (cs : List (List Byte)) (o : Op φ) :
    ¬ Refused ⟨o, (grant fd hop cs o).1⟩ := by
  cases o <;> simp [Refused, grant]

/-- A handler whose one output is a `strncpy` of the payload is transparent for
exactly the payloads that `strncpy` copies. -/
theorem transparent_iff (fd : φ) {area : List Byte → List Byte} {payload : List Byte}
    (stale : List Byte) {p : Handler φ Unit}
    (h : ∀ es out, p.Runs es out → (outputs es).map area = [strncpy (payload ++ stale) payload.length] ∨
      (outputs es = [] ∧ ∃ e ∈ es, Refused e)) :
    Transparent area payload p ↔ ZeroTailed payload := by
  rw [← strncpy_eq_iff payload stale]
  constructor
  · intro ht
    -- some run is refused nothing
    have hrun := p.runs_exec (grant fd ⟨"", 0, false⟩) []
    have hes := Prog.exec_all (P := fun e => ¬ Refused e) _
      (grant_not_refused fd ⟨"", 0, false⟩) p []
    rcases h _ _ hrun with hout | ⟨_, e, he, href⟩
    · rcases ht _ _ hrun with hout' | ⟨hnil, _⟩
      · rw [hout] at hout'
        exact (List.cons.inj hout').1
      · rw [hnil] at hout
        cases hout
    · exact absurd href (hes e he)
  · intro hz es out hrun
    rcases h es out hrun with hout | hout
    · exact Or.inl (by rw [hout, hz])
    · exact Or.inr hout

section Udp
variable (self : Self) (p : ChainPacket UdpHeader) (ce : ConnectionEntry) (sock : φ)
  (datagram buffer : List Byte) (fuel : Nat)

def forged : List Byte :=
  forgeIpUdpPkt (p.payload ++ p.stale) p.payload.length self.myIp ce.ipDst self.extPort ce.portDst
    datagram

theorem manageExitingUdpPackets_eq :
    Egress.manageExitingUdpPackets self p.buffer p.len ce sock datagram buffer fuel =
      Egress.openSender >>= fun s => Egress.openListener self >>= fun r =>
        Egress.exchange self p.hdr ce s r (forged self p ce datagram) buffer fuel := by
  have hsize := p.payloadLen_eq p.udpOffset
  have hfits := p.fits
  have hudp : p.transport.length = udpHdrLen := p.transportHeader
  have hsmall : ¬ ipHdrLen + udpHdrLen + p.payload.length > bufferSize := by
    simp only [headerSize, ipHdrLen, udpHdrLen] at *
    omega
  simp only [Egress.manageExitingUdpPackets, p.header, hsize, hsmall, if_false]
  rw [p.payload_eq p.udpOffset]
  rfl

theorem openSender_outputs {es : List (Event (Op φ) (Reply φ))} {out : Except Stop φ}
    (h : Egress.openSender.Runs es out) :
    outputs es = [] ∧ ∀ e, out = .error e → ∃ e ∈ es, Refused e := by
  obtain ⟨reply, es', rfl, hk⟩ := Prog.runs_op.mp h
  cases reply with
  | none =>
    obtain ⟨rfl, rfl⟩ := Prog.runs_throw.mp hk
    exact ⟨rfl, fun _ _ => ⟨_, List.mem_cons_self, rfl⟩⟩
  | some s =>
    obtain ⟨rfl, rfl⟩ := Prog.runs_ret.mp hk
    exact ⟨rfl, by simp⟩

theorem openListener_outputs {es : List (Event (Op φ) (Reply φ))} {out : Except Stop φ}
    (h : (Egress.openListener self).Runs es out) :
    outputs es = [] ∧ ∀ e, out = .error e → ∃ e ∈ es, Refused e := by
  obtain ⟨reply, es', rfl, hk⟩ := Prog.runs_op.mp h
  cases reply with
  | none =>
    obtain ⟨rfl, rfl⟩ := Prog.runs_throw.mp hk
    exact ⟨rfl, fun _ _ => ⟨_, List.mem_cons_self, rfl⟩⟩
  | some r =>
    obtain ⟨bound, es'', rfl, hb⟩ := Prog.runs_op.mp hk
    cases bound with
    | false =>
      obtain ⟨_, es₃, rfl, hc⟩ := Prog.runs_op.mp hb
      obtain ⟨rfl, rfl⟩ := Prog.runs_throw.mp hc
      exact ⟨rfl, fun _ _ => ⟨_, List.mem_cons_of_mem _ List.mem_cons_self, rfl⟩⟩
    | true =>
      obtain ⟨rfl, rfl⟩ := Prog.runs_ret.mp hb
      exact ⟨rfl, by simp⟩

/-- An exchange sends the datagram, as much of it as its header says, and nothing more. -/
theorem exchange_outputs (hdr : SfcHeader) (s r : φ) {es : List (Event (Op φ) (Reply φ))}
    {out : Except Stop Unit} (h : (Egress.exchange self hdr ce s r datagram buffer fuel).Runs es out) :
    outputs es = [datagram.take (read16 datagram 2).toNat] := by
  obtain ⟨sent, es', rfl, hk⟩ := Prog.runs_op.mp h
  have hquiet : outputs es' = [] := by
    refine outputs_quiet (hk.all (P := fun o => written o = none) ?_)
    change Prog.All _ (if sent < 0 then _ else _)
    split
    · trivial
    · exact (updateEntry_all (P := fun o => written o = none) rfl).bind fun _ =>
        Egress.exitingUdpLoop_all (P := fun o => written o = none) self hdr r rfl (fun _ => rfl)
          (fun _ _ _ => rfl) fuel buffer
  have hsend (bs : List Byte) (addr : SockaddrIn) :
      outputs (⟨.sendto s bs addr, sent⟩ :: es') = bs :: outputs es' := rfl
  rw [hsend, hquiet]

theorem manageExitingUdpPackets_outputs (hd : datagram.length = bufferSize)
    {es : List (Event (Op φ) (Reply φ))} {out : Except Stop Unit}
    (h : (Egress.manageExitingUdpPackets self p.buffer p.len ce sock datagram buffer fuel).Runs
      es out) :
    (outputs es).map (List.drop 28) = [strncpy (p.payload ++ p.stale) p.payload.length] ∨
      (outputs es = [] ∧ ∃ e ∈ es, Refused e) := by
  have hfits := p.fits
  have hudp : p.transport.length = udpHdrLen := p.transportHeader
  have hn : 28 + p.payload.length < bufferSize := by
    have hihl := p.ipHeader.ihl
    have hlen := p.ipHeader.length
    simp only [headerSize, udpHdrLen] at *
    omega
  rw [manageExitingUdpPackets_eq, Prog.runs_bind] at h
  rcases h with ⟨x, hs, rfl⟩ | ⟨s, es₁, es₂, rfl, hs, h⟩
  · obtain ⟨hout, href⟩ := openSender_outputs hs
    exact Or.inr ⟨hout, href x rfl⟩
  · obtain ⟨hout₁, _⟩ := openSender_outputs hs
    rw [Prog.runs_bind] at h
    rcases h with ⟨x, hl, rfl⟩ | ⟨r, es₃, es₄, rfl, hl, h⟩
    · obtain ⟨hout, href⟩ := openListener_outputs self hl
      obtain ⟨e, he, hr⟩ := href x rfl
      exact Or.inr ⟨by rw [outputs_append, hout₁, hout]; rfl, e, List.mem_append_right _ he, hr⟩
    · obtain ⟨hout₃, _⟩ := openListener_outputs self hl
      rw [outputs_append, outputs_append, hout₁, hout₃, exchange_outputs self ce _ buffer fuel _ s r h]
      exact Or.inl (congrArg (fun bs => [bs]) (forged_payload _ _ _ _ _ _ datagram hd hn))

end Udp

theorem exitingTcp_transparent_iff [Descriptor φ] (self : Self) (p : ChainPacket TcpHeader)
    (ce : ConnectionEntry) (socket : φ) (received : List Byte) (fuel : Nat) :
    Transparent id p.payload
      (Egress.manageExitingTcpPackets self p.buffer p.len ce socket received fuel) ↔
      ZeroTailed p.payload := by
  refine transparent_iff socket p.stale fun es out h => ?_
  rw [List.map_id]
  exact manageExitingTcpPackets_outputs self p ce socket received fuel h

theorem exitingUdp_transparent_iff (self : Self) (p : ChainPacket UdpHeader)
    (ce : ConnectionEntry) (sock : φ) (datagram buffer : List Byte) (fuel : Nat)
    (hd : datagram.length = bufferSize) :
    Transparent (List.drop 28) p.payload
      (Egress.manageExitingUdpPackets self p.buffer p.len ce sock datagram buffer fuel) ↔
      ZeroTailed p.payload :=
  transparent_iff sock p.stale fun _ _ h =>
    manageExitingUdpPackets_outputs self p ce sock datagram buffer fuel hd h

/-- On both forward paths exactly the payloads without a byte behind a zero byte
get through: `strncpy` stops at the first zero and fills up with zeros. -/
theorem payload_transparent_iff [Descriptor φ] (self : Self) (ce : ConnectionEntry) (socket : φ)
    (tcp : ChainPacket TcpHeader) (udp : ChainPacket UdpHeader) (received buffer : List Byte)
    (datagram : {m : List Byte // m.length = bufferSize}) (fuel : Nat) :
    (Transparent id tcp.payload
        (Egress.manageExitingTcpPackets self tcp.buffer tcp.len ce socket received fuel) ↔
      ZeroTailed tcp.payload) ∧
    (Transparent (List.drop 28) udp.payload
        (Egress.manageExitingUdpPackets self udp.buffer udp.len ce socket datagram.1 buffer fuel) ↔
      ZeroTailed udp.payload) :=
  ⟨exitingTcp_transparent_iff self tcp ce socket received fuel,
    exitingUdp_transparent_iff self udp ce socket datagram.1 buffer fuel datagram.2⟩

def zeroInside (Transport : List Byte → Prop) (protocol : Byte) (transport : List Byte)
    (h : Transport transport) (hlen : transport.length ≤ 20) : ChainPacket Transport where
  hdr := createHeader 0 0 "10.0.0.1" 0x8813 "10.0.1.1" 0x5000 3 0
  ip := plainIp protocol
  transport := transport
  payload := [0x61, 0, 0x62]
  stale := []
  ipHeader := plainIp_header protocol
  transportHeader := h
  fits := by
    have hip : (plainIp protocol).length = 20 := rfl
    simp only [headerSize, bufferSize, hip, List.length_cons, List.length_nil]
    omega

theorem zero_byte_truncates :
    ¬ Transparent id [0x61, 0, 0x62]
      (Egress.manageExitingTcpPackets ⟨Classifier.classifyPkt, "10.0.0.9", 57000⟩
        (zeroInside TcpHeader 6 plainTcp plainTcp_header (by decide)).buffer
        (zeroInside TcpHeader 6 plainTcp plainTcp_header (by decide)).len
        ⟨"10.0.0.1", "10.0.1.1", 5000, 80, "0", .tcp⟩ (7 : Int) [] 1) ∧
    ¬ Transparent (List.drop 28) [0x61, 0, 0x62]
      (Egress.manageExitingUdpPackets ⟨Classifier.classifyPkt, "10.0.0.9", 57000⟩
        (zeroInside UdpHeader 17 plainUdp rfl (by decide)).buffer
        (zeroInside UdpHeader 17 plainUdp rfl (by decide)).len
        ⟨"10.0.0.1", "10.0.1.1", 5000, 80, "0", .udp⟩ (7 : Int) (List.replicate bufferSize 0) [] 1) := by
  constructor
  · intro h
    exact absurd ((exitingTcp_transparent_iff _ (zeroInside TcpHeader 6 plainTcp plainTcp_header
      (by decide)) _ _ _ _).mp h) (by decide)
  · intro h
    exact absurd ((exitingUdp_transparent_iff _ (zeroInside UdpHeader 17 plainUdp rfl (by decide))
      _ _ _ _ _ (by rw [List.length_replicate])).mp h) (by decide)

end Ironhide.Proofs.Exiting
