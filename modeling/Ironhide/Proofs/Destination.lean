import Ironhide.Model.Client
import Ironhide.Proofs.Exiting
import Ironhide.Proofs.Keys

namespace Ironhide.Proofs.Destination
open Model Lib.Bytes Lib.Text Lib.Program PacketUtils SfcUtilities Framing Exiting

variable {φ : Type}

def Registers (ce : ConnectionEntry) (server : SockaddrIn) : Op φ → Prop
  | .updateEntry ce' _ sockin _ => ce' = ce ∧ sockin = server
  | _ => True

/-- The address the UDP path fills in itself. -/
def udpServer (header : SfcHeader) : SockaddrIn where
  sinFamily := 2
  sinPort := htons header.destinationPort
  sinAddr := header.destinationAddress

theorem manageExitingUdpPackets_registers (self : Self) (pkt : List Byte) (pktLen : Nat)
    (ce : ConnectionEntry) (sock : φ) (datagram buffer : List Byte) (fuel : Nat) :
    (Egress.manageExitingUdpPackets self pkt pktLen ce sock datagram buffer fuel).All
      (Registers ce (udpServer (retrieveHeader pkt))) := by
  refine (Egress.openSender_all (P := Registers ce _) trivial).bind fun s => ?_
  dsimp only
  split
  · trivial
  · refine (Egress.openListener_all (P := Registers ce _) self trivial (fun _ _ => trivial)
      fun _ => trivial).bind fun r => ⟨trivial, fun sent => ?_⟩
    change Prog.All _ (if sent < 0 then _ else _)
    split
    · trivial
    · exact (updateEntry_all (P := Registers ce _) ⟨rfl, rfl⟩).bind fun _ =>
        Egress.exitingUdpLoop_all (P := Registers ce _) self _ r trivial (fun _ => trivial)
          (fun _ _ _ => trivial) fuel buffer

def Connected (header : SfcHeader) (ce : ConnectionEntry) (past : List (Event (Op φ) (Reply φ))) :
    Op φ → Prop
  | .updateEntry ce' fd sockin _ => ce' = ce ∧ ∃ earlier, past = earlier ++
    [⟨.connectToServer (intToIp header.destinationAddress) (htons header.destinationPort),
      some (fd, sockin)⟩]
  | _ => True

def NoUpdate : Op φ → Prop
  | .updateEntry .. => False
  | _ => True

theorem connected_of_noUpdate {header : SfcHeader} {ce : ConnectionEntry}
    (past : List (Event (Op φ) (Reply φ))) (o : Op φ) (h : NoUpdate o) :
    Connected header ce past o := by
  cases o with
  | updateEntry ce' fd sockin endpoint => exact h.elim
  | _ => trivial

section Connecting
variable [Descriptor φ]

theorem manageExitingTcpPackets_connected (self : Self) (pkt : List Byte) (pktLen : Nat)
    (ce : ConnectionEntry) (socket : φ) (received : List Byte) (fuel : Nat) :
    (Egress.manageExitingTcpPackets self pkt pktLen ce socket received fuel).AllPast
      (Connected (retrieveHeader pkt) ce) [] := by
  have hquiet (p : Handler φ Unit) (past : List (Event (Op φ) (Reply φ))) (h : p.All NoUpdate) :
      p.AllPast (Connected (retrieveHeader pkt) ce) past := h.allPast connected_of_noUpdate
  rw [Egress.manageExitingTcpPackets]
  split
  · trivial
  · refine Prog.AllPast.bind ?_ fun s es _ => hquiet _ _ ⟨trivial, fun _ => ?_⟩
    · by_cases hs : Descriptor.num socket = -1
      · rw [Egress.destination_new _ _ _ hs]
        refine ⟨trivial, fun reply => ?_⟩
        cases reply with
        | none => trivial
        | some new =>
          refine ⟨⟨rfl, [], rfl⟩, fun answer => ?_⟩
          cases answer <;> trivial
      · rw [Egress.destination_known _ _ _ hs]
        trivial
    · exact Egress.exitingTcpLoop_all (P := NoUpdate) self _ s trivial (fun _ => trivial)
        (fun _ _ _ => trivial) fuel received

/-- The reply to `connect_to_server` is one the client can give. -/
def OfClient (dst : String) (port : BitVec 16) (reply : Option (φ × SockaddrIn)) : Prop :=
  ∀ new, reply = some new → ∃ es, (Client.connectToServer dst port).Runs es (.ok new)

/-- The client's address is the one it was asked to connect to. -/
theorem connectToServer_sockaddr {dst : String} {port : BitVec 16}
    {es : List (Event (Client.Op φ) (Client.Reply φ))} {new : φ × SockaddrIn}
    (h : (Client.connectToServer dst port).Runs es (.ok new)) :
    ∃ addr, Client.inetPton dst = some addr ∧ new.2 = ⟨2, htons port, addr⟩ := by
  obtain ⟨sock, es₁, rfl, h₁⟩ := Prog.runs_op.mp h
  change Prog.Runs (if Descriptor.num sock < 0 then _ else _) _ _ at h₁
  split at h₁
  · cases h₁
  · cases hpton : Client.inetPton dst with
    | none =>
      simp only [hpton] at h₁
      cases h₁
    | some addr =>
      simp only [hpton, Prog.perform_bind, Prog.runs_op] at h₁
      obtain ⟨result, es₂, rfl, h₂⟩ := h₁
      cases result with
      | none => cases h₂
      | some result =>
        rcases Prog.runs_bind.mp h₂ with ⟨x, _, hx⟩ | ⟨last, es₃, es₄, rfl, _, h₃⟩
        · cases hx
        · obtain ⟨sfd, connected⟩ := last
          cases connected with
          | false => cases h₃
          | true =>
            obtain ⟨_, hnew⟩ := Prog.runs_ret.mp h₃
            cases hnew
            exact ⟨addr, rfl, rfl⟩

/-- An address is the destination of the connection: the header's address, and the
entry's port in network order. -/
structure Names (sockin : SockaddrIn) (header : SfcHeader) (ce : ConnectionEntry) : Prop where
  sinAddr : sockin.sinAddr = header.destinationAddress
  sinPort : sockin.sinPort = htons ce.portDst

/-- What the TCP path registers names the connection's destination. -/
theorem tcp_names {self : Self} {pkt : List Byte} {pktLen : Nat} {socket : φ}
    {received : List Byte} {fuel : Nat} {es : List (Event (Op φ) (Reply φ))}
    {out : Except Stop Unit} {ce : ConnectionEntry} {fd : φ} {sockin : SockaddrIn}
    {endpoint : EndpointType} {r : Except Exn Unit}
    (h : (Egress.manageExitingTcpPackets self pkt pktLen (headerEntry (retrieveHeader pkt) .tcp)
      socket received fuel).Runs es out)
    (hclient : ∀ dst port reply, ⟨.connectToServer dst port, reply⟩ ∈ es → OfClient dst port reply)
    (hmem : ⟨.updateEntry ce fd sockin endpoint, r⟩ ∈ es) :
    ce = headerEntry (retrieveHeader pkt) .tcp ∧ Names sockin (retrieveHeader pkt) ce ∧
      sockin = ⟨2, (retrieveHeader pkt).destinationPort, (retrieveHeader pkt).destinationAddress⟩ := by
  obtain ⟨before, after, rfl⟩ := List.append_of_mem hmem
  obtain ⟨hce, earlier, hbefore⟩ :=
    h.allPast (manageExitingTcpPackets_connected self pkt pktLen _ socket received fuel) rfl
  have hasked : ⟨.connectToServer (intToIp (retrieveHeader pkt).destinationAddress)
      (htons (retrieveHeader pkt).destinationPort), some (fd, sockin)⟩ ∈ before := by
    rw [List.nil_append] at hbefore
    rw [hbefore]
    simp
  obtain ⟨es', hrun⟩ := hclient _ _ _ (List.mem_append_left _ hasked) _ rfl
  obtain ⟨addr, hpton, hsockin⟩ := connectToServer_sockaddr hrun
  have haddr : addr = (retrieveHeader pkt).destinationAddress := by
    rw [intToIp, Client.inetPton_inetNtoa] at hpton
    exact (Option.some.inj hpton).symm
  rw [htons_htons, haddr] at hsockin
  have hval : sockin = _ := hsockin
  subst hce
  rw [hval]
  exact ⟨rfl, ⟨rfl, (htons_htons _).symm⟩, rfl⟩

/-- Swapping the bytes of a port changes it unless they are equal. -/
theorem htons_eq_self_iff (w : BitVec 16) :
    htons w = w ↔ w.extractLsb' 0 8 = w.extractLsb' 8 8 := by
  constructor
  · intro h
    have hlow := congrArg (fun v : BitVec 16 => v.extractLsb' 0 8) h
    simp only [htons] at hlow
    rw [show (w.extractLsb' 0 8 ++ w.extractLsb' 8 8).extractLsb' 0 8 = w.extractLsb' 8 8 from
      BitVec.extractLsb'_append_eq_right] at hlow
    exact hlow.symm
  · intro h
    have hjoin := join16 w
    rw [htons, h]
    rw [h] at hjoin
    exact hjoin

/-- Both paths register the same destination, the connection's, for exactly the
ports whose two bytes are equal: the UDP path swaps them once too often. -/
theorem destinations_agree_iff {self self' : Self} {udpPkt tcpPkt : List Byte} {udpLen tcpLen : Nat}
    {sock socket : φ} {datagram buffer received : List Byte} {fuel fuel' : Nat}
    {es es' : List (Event (Op φ) (Reply φ))} {out out' : Except Stop Unit}
    {ce ce' : ConnectionEntry} {fd fd' : φ} {u t : SockaddrIn} {endpoint endpoint' : EndpointType}
    {r r' : Except Exn Unit} (hheader : retrieveHeader udpPkt = retrieveHeader tcpPkt)
    (hudp : (Egress.manageExitingUdpPackets self udpPkt udpLen
      (headerEntry (retrieveHeader udpPkt) .udp) sock datagram buffer fuel).Runs es out)
    (htcp : (Egress.manageExitingTcpPackets self' tcpPkt tcpLen
      (headerEntry (retrieveHeader tcpPkt) .tcp) socket received fuel').Runs es' out')
    (hclient : ∀ dst port reply, ⟨.connectToServer dst port, reply⟩ ∈ es' → OfClient dst port reply)
    (hu : ⟨.updateEntry ce fd u endpoint, r⟩ ∈ es)
    (ht : ⟨.updateEntry ce' fd' t endpoint', r'⟩ ∈ es') :
    u = t ∧ Names u (retrieveHeader udpPkt) ce ∧ Names t (retrieveHeader tcpPkt) ce' ↔
      (retrieveHeader udpPkt).destinationPort.extractLsb' 0 8 =
        (retrieveHeader udpPkt).destinationPort.extractLsb' 8 8 := by
  obtain ⟨hce, rfl⟩ :=
    hudp.all (manageExitingUdpPackets_registers self udpPkt udpLen _ sock datagram buffer fuel) _ hu
  obtain ⟨hce', hnames, rfl⟩ := tcp_names htcp hclient ht
  rw [← htons_eq_self_iff]
  constructor
  · intro hparts
    obtain ⟨heq, _, _⟩ := hparts
    have hport : htons (retrieveHeader udpPkt).destinationPort =
        (retrieveHeader tcpPkt).destinationPort := congrArg SockaddrIn.sinPort heq
    rwa [← hheader] at hport
  · intro hport
    refine ⟨?_, ⟨rfl, ?_⟩, hnames⟩
    · rw [udpServer, hport, hheader]
    · rw [hce]
      exact hport.trans (htons_htons _).symm

end Connecting

section Sample
open Keys
variable (hdr : SfcHeader)

def sampleChainPacket (Transport : List Byte → Prop) (protocol : Byte) (transport : List Byte)
    (h : Transport transport) (hlen : transport.length ≤ 20) : ChainPacket Transport where
  hdr := hdr
  ip := plainIp protocol
  transport := transport
  payload := [0x61]
  stale := []
  ipHeader := plainIp_header protocol
  transportHeader := h
  fits := by
    have hip : (plainIp protocol).length = 20 := rfl
    simp only [headerSize, bufferSize, hip, List.length_singleton]
    omega

def viaUdp : ChainPacket UdpHeader :=
  sampleChainPacket hdr UdpHeader 17 plainUdp udpPacket.transportHeader (by decide)

def viaTcp : ChainPacket TcpHeader :=
  sampleChainPacket hdr TcpHeader 6 plainTcp plainTcp_header (by decide)

def tcpServer : SockaddrIn := ⟨2, hdr.destinationPort, hdr.destinationAddress⟩

def udpExit : List (Event (Op Int) (Reply Int)) :=
  [⟨.rawSocket 255, some (3 : Int)⟩, ⟨.rawSocket 17, some (4 : Int)⟩,
    ⟨.bind 4 ⟨2, htons proxy.extPort, inetAddr proxy.myIp⟩, true⟩,
    ⟨.sendto 3 ((forged proxy (viaUdp hdr) (headerEntry hdr .udp) []).take
      (read16 (forged proxy (viaUdp hdr) (headerEntry hdr .udp) []) 2).toNat)
      (udpServer hdr), (29 : Int)⟩,
    ⟨.updateEntry (headerEntry hdr .udp) 3 (udpServer hdr) .egressT, .ok ()⟩,
    ⟨.recvfrom 4 bufferSize, some []⟩]

def tcpExit : List (Event (Op Int) (Reply Int)) :=
  [⟨.connectToServer (intToIp hdr.destinationAddress) (htons hdr.destinationPort),
      some ((5 : Int), tcpServer hdr)⟩,
    ⟨.updateEntry (headerEntry hdr .tcp) 5 (tcpServer hdr) .egressT, .ok ()⟩,
    ⟨.send 5 (strncpy [0x61] 1), (1 : Int)⟩, ⟨.read 5 bufferSize, some []⟩]

theorem udpExit_runs :
    (Egress.manageExitingUdpPackets proxy (viaUdp hdr).buffer (viaUdp hdr).len
      (headerEntry (retrieveHeader (viaUdp hdr).buffer) .udp) 3 [] [] 1).Runs (udpExit hdr)
      (.ok ()) := by
  rw [manageExitingUdpPackets_eq, (viaUdp hdr).header]
  exact .op (.op (.op (.op (.op (.op (.ret ()))))))

theorem tcpExit_runs :
    (Egress.manageExitingTcpPackets proxy (viaTcp hdr).buffer (viaTcp hdr).len
      (headerEntry (retrieveHeader (viaTcp hdr).buffer) .tcp) (-1) [] 1).Runs (tcpExit hdr)
      (.ok ()) := by
  rw [manageExitingTcpPackets_eq, (viaTcp hdr).header, Egress.destination_new _ _ _ rfl]
  exact .op (.op (.op (.op (.ret ()))))

/-- The client's calls for that connection. -/
theorem tcpServer_ofClient : OfClient (intToIp hdr.destinationAddress) (htons hdr.destinationPort)
    (some ((5 : Int), tcpServer hdr)) := by
  rintro _ ⟨⟩
  have hread : Client.inetPton (intToIp hdr.destinationAddress) = some hdr.destinationAddress :=
    Client.inetPton_inetNtoa _
  have hserver : tcpServer hdr = ⟨2, htons (htons hdr.destinationPort), hdr.destinationAddress⟩ := by
    rw [htons_htons]
    rfl
  rw [Client.connectToServer, hread, hserver]
  exact ⟨[⟨.socket 2 1 0, (4 : Int)⟩,
    ⟨.getaddrinfo (intToIp hdr.destinationAddress)
      (Model.toString (htons hdr.destinationPort).toNat) 1 6, some [⟨2, 1, 6, []⟩]⟩,
    ⟨.socket 2 1 6, (5 : Int)⟩, ⟨.connect 5 [], (0 : Int)⟩], .op (.op (.op (.op (.ret _))))⟩

theorem tcpExit_ofClient (dst : String) (port : BitVec 16) (reply : Option (Int × SockaddrIn))
    (h : ⟨.connectToServer dst port, reply⟩ ∈ tcpExit hdr) : OfClient dst port reply := by
  rcases List.mem_cons.mp h with h | h
  · cases h
    exact tcpServer_ofClient hdr
  · simp at h

def sampleHeader : SfcHeader := sampleConnection.header 1 0

/-- To port 80 the UDP path registers port 20480. -/
theorem port_80_swapped :
    (Egress.manageExitingUdpPackets proxy (viaUdp sampleHeader).buffer (viaUdp sampleHeader).len
      (headerEntry (retrieveHeader (viaUdp sampleHeader).buffer) .udp) 3 [] [] 1).Runs
      (udpExit sampleHeader) (.ok ()) ∧
    (Egress.manageExitingTcpPackets proxy (viaTcp sampleHeader).buffer (viaTcp sampleHeader).len
      (headerEntry (retrieveHeader (viaTcp sampleHeader).buffer) .tcp) (-1) [] 1).Runs
      (tcpExit sampleHeader) (.ok ()) ∧
    OfClient "10.0.1.1" 80 (some ((5 : Int), tcpServer sampleHeader)) ∧
    ¬ (udpServer sampleHeader = tcpServer sampleHeader ∧
      Names (udpServer sampleHeader) sampleHeader (headerEntry sampleHeader .udp)) := by
  refine ⟨udpExit_runs _, tcpExit_runs _, ?_, fun hparts => ?_⟩
  · have hdst : intToIp sampleHeader.destinationAddress = "10.0.1.1" := by decide +kernel
    have hport : htons sampleHeader.destinationPort = 80 := by decide
    rw [← hdst, ← hport]
    exact tcpServer_ofClient sampleHeader
  · exact absurd (congrArg SockaddrIn.sinPort hparts.1) (by decide)

/-- A connection to port 20560, of which the two bytes are equal. -/
def evenHeader : SfcHeader := { sampleHeader with destinationPort := 0x5050 }

theorem port_20560_agree :
    udpServer evenHeader = tcpServer evenHeader ∧
      Names (udpServer evenHeader) (retrieveHeader (viaUdp evenHeader).buffer)
        (headerEntry evenHeader .udp) ∧
      Names (tcpServer evenHeader) (retrieveHeader (viaTcp evenHeader).buffer)
        (headerEntry evenHeader .tcp) := by
  have hu : ⟨.updateEntry (headerEntry evenHeader .udp) (3 : Int) (udpServer evenHeader)
      .egressT, .ok ()⟩ ∈ udpExit evenHeader := by simp [udpExit]
  have ht : ⟨.updateEntry (headerEntry evenHeader .tcp) (5 : Int) (tcpServer evenHeader)
      .egressT, .ok ()⟩ ∈ tcpExit evenHeader := by simp [tcpExit]
  refine (destinations_agree_iff ((viaUdp evenHeader).header.trans (viaTcp evenHeader).header.symm)
    (udpExit_runs evenHeader) (tcpExit_runs evenHeader) (tcpExit_ofClient evenHeader) hu ht).mpr ?_
  rw [(viaUdp evenHeader).header]
  decide

end Sample

end Ironhide.Proofs.Destination
