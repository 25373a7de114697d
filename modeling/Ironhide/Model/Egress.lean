import Ironhide.Model.Handler

namespace Ironhide.Model.Egress
open Lib.Bytes Lib.Program Lib.Text PacketUtils SfcUtilities

variable {φ : Type}

/-- The length of the payload behind the headers, which wraps when the packet
is shorter than they say. -/
def payloadLen (pktLen pktCalc : Nat) : BitVec 64 := BitVec.ofNat 64 pktLen - BitVec.ofNat 64 pktCalc

def answerHeader (header : SfcHeader) (pId : BitVec 32) (hops : Nat) : SfcHeader :=
  createHeader pId 0 (intToIp header.sourceAddress) header.sourcePort
    (intToIp header.destinationAddress) header.destinationPort (BitVec.ofNat 16 (hops + 2)) 1

/-- What both response loops do with what they received: classify it, frame it,
return it to the chain. The result says whether to receive again: `noRoute`
when there is no route, `again` otherwise. -/
def sendBack (self : Self) (header : SfcHeader) (received : List Byte) (receivedLen : Nat)
    (noRoute again : Bool) : Handler φ Bool := do
  let sfcid ← classifyPkt self received receivedLen
  match ← getRouteList sfcid with
  | [] => pure noRoute
  | hop :: hops =>
    forward sfcid (hop :: hops) hop header.sourceAddress header.sourcePort
      header.destinationAddress header.destinationPort 1 received receivedLen
    pure again

/-- A round of the UDP response loop, which a datagram short of the buffer ends. -/
def exitingUdpRound (self : Self) (header : SfcHeader) (buffer : List Byte) (receivedLen : Nat) :
    Handler φ Bool :=
  sendBack self header buffer receivedLen (receivedLen ≥ bufferSize) (receivedLen ≥ bufferSize)

def exitingUdpLoop (self : Self) (header : SfcHeader) (rawSocket : φ) :
    Nat → List Byte → Handler φ Unit
  | 0, _ => .throw .running
  | n + 1, buffer => do
    match ← Prog.perform (Op.recvfrom rawSocket bufferSize) with
    | none => .throw .exit
    | some [] => pure ()
    | some (b :: bs) =>
      let buffer := overwrite buffer (b :: bs)
      if ← exitingUdpRound self header buffer (b :: bs).length then
        exitingUdpLoop self header rawSocket n buffer
      else pure ()

def openSender : Handler φ φ := do
  match ← Prog.perform (Op.rawSocket 255) with
  | none => .throw .exit
  | some sock => pure sock

def openListener (self : Self) : Handler φ φ := do
  match ← Prog.perform (Op.rawSocket 17) with
  | none => .throw .exit
  | some rawSocket =>
    let sockstr : SockaddrIn :=
      { sinFamily := 2, sinPort := htons self.extPort, sinAddr := inetAddr self.myIp }
    if ← Prog.perform (Op.bind rawSocket sockstr) then pure rawSocket
    else
      Prog.perform (Op.close rawSocket)
      .throw .exit

def exchange (self : Self) (header : SfcHeader) (ce : ConnectionEntry) (sock rawSocket : φ)
    (datagram buffer : List Byte) (fuel : Nat) : Handler φ Unit := do
  let server : SockaddrIn := {
    sinFamily := 2
    sinPort := htons header.destinationPort
    sinAddr := header.destinationAddress }
  let totLen := (read16 datagram 2).toNat
  let sent ← Prog.perform (Op.sendto sock (datagram.take totLen) server)
  if sent < 0 then .throw .exit
  else
    updateEntry ce sock server .egressT
    exitingUdpLoop self header rawSocket fuel buffer

/-- `manage_exiting_udp_packets`. The descriptor it is given is overwritten by
the raw socket's; `datagram` and `buffer` are its buffers before use. -/
def manageExitingUdpPackets (self : Self) (pkt : List Byte) (pktLen : Nat)
    (ce : ConnectionEntry) (_sock : φ) (datagram buffer : List Byte) (fuel : Nat) :
    Handler φ Unit := do
  let pktCalc := headerSize + udpPacketHeaderSize (pkt.drop headerSize)
  let header := retrieveHeader pkt
  let sock ← openSender
  let dataLen := (payloadLen pktLen pktCalc).toNat
  if ipHdrLen + udpHdrLen + dataLen > bufferSize then .throw .undefined
  else
    let datagram := forgeIpUdpPkt (pkt.drop pktCalc) dataLen self.myIp ce.ipDst self.extPort
      ce.portDst datagram
    let rawSocket ← openListener self
    exchange self header ce sock rawSocket datagram buffer fuel

/-- A round of the TCP response loop, which a short read or a missing route ends. -/
def exitingTcpRound (self : Self) (header : SfcHeader) (received : List Byte) (receivedLen : Nat) :
    Handler φ Bool :=
  sendBack self header received receivedLen false (receivedLen ≥ bufferSize)

def exitingTcpLoop (self : Self) (header : SfcHeader) (socket : φ) :
    Nat → List Byte → Handler φ Unit
  | 0, _ => .throw .running
  | n + 1, received => do
    match ← Prog.perform (Op.read socket bufferSize) with
    | none => .throw .exit
    | some [] => pure ()
    | some (b :: bs) =>
      let received := overwrite received (b :: bs)
      if ← exitingTcpRound self header received (b :: bs).length then
        exitingTcpLoop self header socket n received
      else pure ()

def destination [Descriptor φ] (header : SfcHeader) (ce : ConnectionEntry) (socket : φ) :
    Handler φ φ := do
  if Descriptor.num socket = -1 then
    match ← Prog.perform (Op.connectToServer (intToIp header.destinationAddress)
      (htons header.destinationPort)) with
    | none => .throw .exit
    | some (socket, sockin) =>
      updateEntry ce socket sockin .egressT
      pure socket
  else pure socket

/-- `manage_exiting_tcp_packets`; `received` is its buffer before use. -/
def manageExitingTcpPackets [Descriptor φ] (self : Self) (pkt : List Byte) (pktLen : Nat)
    (ce : ConnectionEntry) (socket : φ) (received : List Byte) (fuel : Nat) : Handler φ Unit := do
  let header := retrieveHeader pkt
  let pktCalc := headerSize + tcpPacketHeaderSize (pkt.drop headerSize)
  let size := payloadLen pktLen pktCalc
  -- `std::vector` refuses more than `PTRDIFF_MAX` elements
  if size.toNat ≥ 2^63 then .throw (.exn .lengthError)
  else
    let s := strncpy (pkt.drop pktCalc) size.toNat
    let socket ← destination header ce socket
    let _ ← Prog.perform (Op.send socket s)
    exitingTcpLoop self header socket fuel received

def managePktFromChain (args : UdpArgs φ) : Handler φ Unit := do
  let _ ← Prog.perform (Op.sendto args.socketFd ack args.clientAddress)
  let flh := retrieveHeader args.pkt
  let headers ← checked (retrieveIpUdpHeader (args.pkt.drop headerSize))
  let prt := connType headers.1.protocol
  let ce := headerEntry flh prt
  let sock ← Prog.perform (Op.retrieveConnection2 ce)
  match prt with
  | .tcp => Prog.perform (Op.goAsync (.exitingTcp args.pkt args.pktLen ce sock.1))
  | .udp => Prog.perform (Op.goAsync (.exitingUdp args.pkt args.pktLen ce sock.1))

/-- What the internal UDP server runs for a datagram, and what its handler hands
to `GO_ASYNC`, each in a thread of its own. `datagram`, `buffer` and `fuel` are
the buffers and the rounds of the response loop. -/
inductive Callback (φ : Type) where
  | vnf (args : UdpArgs φ)
  | task (task : Task φ) (datagram buffer : List Byte) (fuel : Nat)
  deriving DecidableEq, Repr

def start [Descriptor φ] (self : Self) : Callback φ → Handler φ Unit
  | .vnf args => managePktFromChain args
  | .task (.exitingTcp pkt pktLen ce socket) _ buffer fuel =>
    manageExitingTcpPackets self pkt pktLen ce socket buffer fuel
  | .task (.exitingUdp pkt pktLen ce sock) datagram buffer fuel =>
    manageExitingUdpPackets self pkt pktLen ce sock datagram buffer fuel

/-- `GO_ASYNC` starts a thread for its task, no other operation starts one. -/
def Starts {Γ : Type} (job : Callback φ → Γ) (born : List Γ) : Op φ → Prop
  | .goAsync task => ∃ datagram buffer fuel, born = [job (.task task datagram buffer fuel)]
  | _ => born = []

/-- The thread an operation starts, with empty buffers and some rounds for its loop. -/
def started {Γ : Type} (job : Callback φ → Γ) (fuel : Nat) : Op φ → List Γ
  | .goAsync task => [job (.task task [] [] fuel)]
  | _ => []

theorem started_starts {Γ : Type} (job : Callback φ → Γ) (fuel : Nat) (o : Op φ) :
    Starts job (started job fuel o) o := by
  cases o with
  | goAsync task => exact ⟨_, _, _, rfl⟩
  | _ => rfl

/-- Whatever is started is started for a task that was handed to `GO_ASYNC`. -/
theorem Starts.task {Γ : Type} {job : Callback φ → Γ} {born : List Γ} {o : Op φ}
    (h : Starts job born o) {g : Γ} (hg : g ∈ born) :
    ∃ task datagram buffer fuel, o = .goAsync task ∧ g = job (.task task datagram buffer fuel) := by
  cases o with
  | goAsync task =>
    obtain ⟨datagram, buffer, fuel, rfl⟩ := h
    exact ⟨task, datagram, buffer, fuel, rfl, List.mem_singleton.mp hg⟩
  | _ =>
    cases h
    cases hg

section Destination
variable [Descriptor φ] (header : SfcHeader) (ce : ConnectionEntry) (socket : φ)

theorem destination_known (h : Descriptor.num socket ≠ -1) :
    destination header ce socket = .ret socket := by
  simp [destination, h]

theorem destination_new (h : Descriptor.num socket = -1) :
    destination header ce socket =
      .op (.connectToServer (intToIp header.destinationAddress) (htons header.destinationPort))
        fun
        | none => .throw .exit
        | some (s, sockin) =>
          .op (.updateEntry ce s sockin .egressT) fun r => raise r >>= fun _ => .ret s := by
  simp only [destination, h, if_true, Prog.perform_bind]
  congr 1

/-- How looking for the destination can go: the connection is known, or it is
refused, or its registration fails, or it is new. -/
theorem runs_destination {es : List (Event (Op φ) (Reply φ))} {out : Except Stop φ}
    (h : (destination header ce socket).Runs es out) :
    (es = [] ∧ out = .ok socket) ∨
    (∃ dst port, es = [⟨.connectToServer dst port, none⟩] ∧ out = .error .exit) ∨
    (∃ dst port s sockin x, es = [⟨.connectToServer dst port, some (s, sockin)⟩,
      ⟨.updateEntry ce s sockin .egressT, .error x⟩] ∧ out = .error (.exn x)) ∨
    (∃ dst port s sockin, es = [⟨.connectToServer dst port, some (s, sockin)⟩,
      ⟨.updateEntry ce s sockin .egressT, .ok ()⟩] ∧ out = .ok s) := by
  by_cases hs : Descriptor.num socket = -1
  · rw [destination_new header ce socket hs, Prog.runs_op] at h
    obtain ⟨reply, es', rfl, h⟩ := h
    cases reply with
    | none =>
      obtain ⟨rfl, rfl⟩ := Prog.runs_throw.mp h
      exact Or.inr (Or.inl ⟨_, _, rfl, rfl⟩)
    | some new =>
      obtain ⟨answer, es'', rfl, h'⟩ := Prog.runs_op.mp h
      cases answer with
      | error x =>
        obtain ⟨rfl, rfl⟩ := Prog.runs_throw.mp h'
        exact Or.inr (Or.inr (Or.inl ⟨_, _, _, _, x, rfl, rfl⟩))
      | ok u =>
        obtain ⟨rfl, rfl⟩ := Prog.runs_ret.mp h'
        exact Or.inr (Or.inr (Or.inr ⟨_, _, _, _, rfl, rfl⟩))
  · rw [destination_known header ce socket hs] at h
    exact Or.inl (Prog.runs_ret.mp h)

end Destination

section All
variable {P : Op φ → Prop}

theorem sendBack_all (hroute : ∀ pId, P (.getRouteList pId))
    (hsend : ∀ message dst port, P (.sendAndWaitResponse message dst port)) (self : Self)
    (header : SfcHeader) (received : List Byte) (receivedLen : Nat) (noRoute again : Bool) :
    (sendBack self header received receivedLen noRoute again).All P := by
  refine (classifyPkt_all _ _ _).bind fun sfcid => ?_
  refine (getRouteList_all hroute sfcid).bind fun path => ?_
  cases path with
  | nil => trivial
  | cons hop hops => exact (forward_all hsend ..).bind fun _ => trivial

theorem openSender_all (hsocket : P (.rawSocket 255)) : openSender.All P := by
  refine ⟨hsocket, fun reply => ?_⟩
  cases reply <;> trivial

theorem openListener_all (self : Self) (hsocket : P (.rawSocket 17))
    (hbind : ∀ fd addr, P (.bind fd addr)) (hclose : ∀ fd, P (.close fd)) :
    (openListener self).All P := by
  refine ⟨hsocket, fun reply => ?_⟩
  cases reply with
  | none => trivial
  | some rawSocket =>
    refine ⟨hbind _ _, fun bound => ?_⟩
    cases bound with
    | false => exact ⟨hclose _, fun _ => trivial⟩
    | true => trivial

theorem destination_all [Descriptor φ] {header : SfcHeader} {ce : ConnectionEntry} {socket : φ}
    (hconnect : ∀ dst port, P (.connectToServer dst port))
    (hupdate : ∀ fd sockin, P (.updateEntry ce fd sockin .egressT)) :
    (destination header ce socket).All P := by
  by_cases hs : Descriptor.num socket = -1
  · rw [destination_new _ _ _ hs]
    refine ⟨hconnect _ _, fun reply => ?_⟩
    cases reply with
    | none => trivial
    | some new => exact (updateEntry_all (hupdate _ _)).bind fun _ => trivial
  · rw [destination_known _ _ _ hs]
    trivial

/-- The response loop of a raw socket receives, asks for routes and sends back. -/
theorem exitingUdpLoop_all (self : Self) (header : SfcHeader) (rawSocket : φ)
    (hrecv : P (.recvfrom rawSocket bufferSize)) (hroute : ∀ pId, P (.getRouteList pId))
    (hsend : ∀ message dst port, P (.sendAndWaitResponse message dst port)) (n : Nat)
    (buffer : List Byte) : (exitingUdpLoop self header rawSocket n buffer).All P := by
  induction n generalizing buffer with
  | zero => trivial
  | succ n ih =>
    refine ⟨hrecv, fun reply => ?_⟩
    match reply with
    | none => trivial
    | some [] => trivial
    | some (b :: bs) =>
      refine (sendBack_all hroute hsend self header _ _ _ _).bind fun again => ?_
      cases again with
      | false => trivial
      | true => exact ih _

/-- The response loop of a connection reads, asks for routes and sends back. -/
theorem exitingTcpLoop_all (self : Self) (header : SfcHeader) (socket : φ)
    (hread : P (.read socket bufferSize)) (hroute : ∀ pId, P (.getRouteList pId))
    (hsend : ∀ message dst port, P (.sendAndWaitResponse message dst port)) (n : Nat)
    (received : List Byte) : (exitingTcpLoop self header socket n received).All P := by
  induction n generalizing received with
  | zero => trivial
  | succ n ih =>
    refine ⟨hread, fun reply => ?_⟩
    match reply with
    | none => trivial
    | some [] => trivial
    | some (b :: bs) =>
      refine (sendBack_all hroute hsend self header _ _ _ _).bind fun again => ?_
      cases again with
      | false => trivial
      | true => exact ih _

end All

/-- How the response loop of a raw socket can go when there is a round left. -/
theorem runs_exitingUdpLoop {self : Self} {header : SfcHeader} {rawSocket : φ} {n : Nat}
    {buffer : List Byte} {es : List (Event (Op φ) (Reply φ))} {out : Except Stop Unit}
    (h : (exitingUdpLoop self header rawSocket (n + 1) buffer).Runs es out) :
    es = [⟨.recvfrom rawSocket bufferSize, none⟩] ∨ es = [⟨.recvfrom rawSocket bufferSize, some []⟩] ∨
    ∃ b bs es', es = ⟨.recvfrom rawSocket bufferSize, some (b :: bs)⟩ :: es' ∧
      (exitingUdpRound self header (overwrite buffer (b :: bs)) (b :: bs).length >>= fun again =>
        if again then exitingUdpLoop self header rawSocket n (overwrite buffer (b :: bs))
        else .ret ()).Runs es' out := by
  obtain ⟨reply, es', rfl, h'⟩ := Prog.runs_op.mp h
  rcases reply with _ | _ | ⟨b, bs⟩
  · obtain ⟨rfl, rfl⟩ := Prog.runs_throw.mp h'
    exact Or.inl rfl
  · obtain ⟨rfl, rfl⟩ := Prog.runs_ret.mp h'
    exact Or.inr (Or.inl rfl)
  · exact Or.inr (Or.inr ⟨b, bs, es', rfl, h'⟩)

/-- How the response loop of a connection can go when there is a round left. -/
theorem runs_exitingTcpLoop {self : Self} {header : SfcHeader} {socket : φ} {n : Nat}
    {received : List Byte} {es : List (Event (Op φ) (Reply φ))} {out : Except Stop Unit}
    (h : (exitingTcpLoop self header socket (n + 1) received).Runs es out) :
    es = [⟨.read socket bufferSize, none⟩] ∨ es = [⟨.read socket bufferSize, some []⟩] ∨
    ∃ b bs es', es = ⟨.read socket bufferSize, some (b :: bs)⟩ :: es' ∧
      (exitingTcpRound self header (overwrite received (b :: bs)) (b :: bs).length >>= fun again =>
        if again then exitingTcpLoop self header socket n (overwrite received (b :: bs))
        else .ret ()).Runs es' out := by
  obtain ⟨reply, es', rfl, h'⟩ := Prog.runs_op.mp h
  rcases reply with _ | _ | ⟨b, bs⟩
  · obtain ⟨rfl, rfl⟩ := Prog.runs_throw.mp h'
    exact Or.inl rfl
  · obtain ⟨rfl, rfl⟩ := Prog.runs_ret.mp h'
    exact Or.inr (Or.inl rfl)
  · exact Or.inr (Or.inr ⟨b, bs, es', rfl, h'⟩)

end Ironhide.Model.Egress
