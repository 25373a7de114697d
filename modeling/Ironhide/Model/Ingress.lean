import Ironhide.Model.Handler

namespace Ironhide.Model.Ingress
open Lib.Bytes Lib.Program PacketUtils SfcUtilities

variable {φ : Type}

/-- The variables of `manage_entering_tcp_packets` that outlive a round of its loop. -/
structure Entering where
  pkt : List Byte
  sfcid : String
  prevSfcid : String
  firstPkt : Bool
  dbError : Bool
  headers : Iphdr × Tcphdr
  deriving DecidableEq, Repr

/-- Before the first round; `pkt` is whatever was on the stack. -/
def Entering.start (pkt : List Byte) : Entering where
  pkt := pkt
  sfcid := ""
  prevSfcid := ""
  firstPkt := true
  dbError := false
  headers := (Iphdr.read [], Tcphdr.read [])

def Entering.entry (st : Entering) : ConnectionEntry :=
  connectionEntry st.headers.1.saddr st.headers.1.daddr st.headers.2.source st.headers.2.dest
    st.sfcid .tcp

inductive Turn where
  | forwarded
  | noRoute
  | failed
  deriving DecidableEq, Repr

def tryForward (args : TcpArgs φ) (st : Entering) (readSize : Nat) : Handler φ Turn := do
  addEntry st.entry args.newSocketFd args.clientAddress .ingressT .tcp
  match ← getRouteList st.sfcid with
  | [] => pure .noRoute
  | hop :: hops =>
    forward st.sfcid (hop :: hops) hop st.headers.1.saddr st.headers.2.source st.headers.1.daddr
      st.headers.2.dest 0 st.pkt readSize
    pure .forwarded

/-- The `catch` clause, which is for roulette's failures only. -/
def catchFailure : Stop → Handler φ Turn
  | .exn (.failure _) => .ret .failed
  | stop => .throw stop

/-- One round of the receive loop, with what was received. The flag says to go
on; the source leaves the loop when there is no route. -/
def enteringRound (self : Self) (args : TcpArgs φ) (st : Entering) (received : List Byte) :
    Handler φ (Entering × Bool) := do
  let readSize := received.length
  let pkt := overwrite st.pkt received
  let sfcid ← classifyPkt self pkt readSize
  if st.firstPkt || sfcid ≠ st.prevSfcid then
    let headers ← checked (retrieveIpTcpHeader pkt)
    let st := { st with pkt, sfcid, headers }
    match ← (tryForward args st readSize).rescue catchFailure with
    | .forwarded => pure ({ st with prevSfcid := sfcid, firstPkt := false }, true)
    | .noRoute => pure (st, false)
    | .failed => pure ({ st with dbError := true }, true)
  else pure ({ st with pkt, sfcid }, true)

def enteringLoop (self : Self) (args : TcpArgs φ) : Nat → Entering → Handler φ (Nat × Entering)
  | 0, _ => .throw .running
  | n + 1, st => do
    match ← Prog.perform (Op.recv args.newSocketFd bufferSize) with
    | none => .throw .exit
    | some [] => pure (0, st)
    | some (b :: bs) =>
      let (st, again) ← enteringRound self args st (b :: bs)
      if again then enteringLoop self args n st else pure ((b :: bs).length, st)

/-- What follows the loop: the entry of a client that disconnected is deleted,
and the socket is closed if roulette ever failed. -/
def afterLoop (args : TcpArgs φ) (readSize : Nat) (st : Entering) : Handler φ Unit :=
  (if readSize = 0 then deleteEntry st.entry else .ret ()) >>= fun _ =>
    if st.dbError then Prog.perform (Op.close args.newSocketFd) else .ret ()

def manageEnteringTcpPackets (self : Self) (args : TcpArgs φ) (pkt : List Byte) (fuel : Nat) :
    Handler φ Unit :=
  enteringLoop self args fuel (Entering.start pkt) >>= fun last => afterLoop args last.1 last.2

def manageEnteringUdpPackets (self : Self) (args : UdpArgs φ) : Handler φ Unit := do
  let sfcid ← classifyPkt self args.pkt args.pktLen
  let headers ← checked (retrieveIpUdpHeader args.pkt)
  addEntry (connectionEntry headers.1.saddr headers.1.daddr headers.2.source headers.2.dest sfcid
    .udp) args.socketFd args.clientAddress .ingressT .udp
  match ← getRouteList sfcid with
  | [] => pure ()
  | hop :: hops =>
    forward sfcid (hop :: hops) hop headers.1.saddr headers.2.source headers.1.daddr
      headers.2.dest 0 args.pkt args.pktLen

/-- The bytes from an offset of the buffer to the end of what was received. The
source's length wraps when the headers are longer than that. -/
def payloadFrom (args : UdpArgs φ) (pktCalc : Nat) : Handler φ (List Byte) :=
  if pktCalc ≤ args.pktLen then .ret ((args.pkt.take args.pktLen).drop pktCalc)
  else .throw .undefined

def deliverTcp (args : UdpArgs φ) (sock : φ × SockaddrIn) : Handler φ Unit := do
  let payload ← payloadFrom args
    (headerSize + tcpPacketHeaderSize (args.pkt.drop headerSize))
  let respC ← Prog.perform (Op.send sock.1 payload)
  if respC < 0 then
    .throw .exit
  else
    Prog.perform (Op.shutdown sock.1 2)
    Prog.perform (Op.close sock.1)

def deliverUdp (args : UdpArgs φ) (header : SfcHeader) (sock : φ × SockaddrIn) :
    Handler φ Unit := do
  let payload ← payloadFrom args
    (headerSize + udpPacketHeaderSize (args.pkt.drop headerSize))
  let respC ← Prog.perform (Op.sendto sock.1 payload sock.2)
  if respC < 0 then
    .throw .exit
  else
    deleteEntry (headerEntry header .udp)

def managePktFromChain (args : UdpArgs φ) : Handler φ Unit := do
  let _ ← Prog.perform (Op.sendto args.socketFd ack args.clientAddress)
  let header := retrieveHeader args.pkt
  let ipHdr ← checked (retrieveIpHeader (args.pkt.drop headerSize))
  let prt := connType ipHdr.protocol
  let sock ← Prog.perform (Op.retrieveConnection2 (headerEntry header prt))
  match prt with
  | .tcp => deliverTcp args sock
  | .udp => deliverUdp args header sock

/-- What the servers set up by `start` run, each time in a thread of its own: the
TCP server for a connection, the external and the internal UDP server for a
datagram. `pkt` and `fuel` are the receive loop's. -/
inductive Callback (φ : Type) where
  | tcp (args : TcpArgs φ) (pkt : List Byte) (fuel : Nat)
  | udp (args : UdpArgs φ)
  | vnf (args : UdpArgs φ)
  deriving DecidableEq, Repr

def start (self : Self) : Callback φ → Handler φ Unit
  | .tcp args pkt fuel => manageEnteringTcpPackets self args pkt fuel
  | .udp args => manageEnteringUdpPackets self args
  | .vnf args => managePktFromChain args

def afterRound (self : Self) (args : TcpArgs φ) (n readSize : Nat) (next : Entering × Bool) :
    Handler φ (Nat × Entering) :=
  if next.2 then enteringLoop self args n next.1 else .ret (readSize, next.1)

/-- How the loop can go when there is a round left. -/
theorem runs_enteringLoop {self : Self} {args : TcpArgs φ} {n : Nat} {st : Entering}
    {es : List (Event (Op φ) (Reply φ))} {out : Except Stop (Nat × Entering)}
    (h : (enteringLoop self args (n + 1) st).Runs es out) :
    (es = [⟨.recv args.newSocketFd bufferSize, none⟩] ∧ out = .error .exit) ∨
    (es = [⟨.recv args.newSocketFd bufferSize, some []⟩] ∧ out = .ok (0, st)) ∨
    ∃ b bs es', es = ⟨.recv args.newSocketFd bufferSize, some (b :: bs)⟩ :: es' ∧
      (enteringRound self args st (b :: bs) >>= afterRound self args n (b :: bs).length).Runs
        es' out := by
  obtain ⟨reply, es', rfl, h'⟩ := Prog.runs_op.mp h
  rcases reply with _ | _ | ⟨b, bs⟩
  · obtain ⟨rfl, rfl⟩ := Prog.runs_throw.mp h'
    exact Or.inl ⟨rfl, rfl⟩
  · obtain ⟨rfl, rfl⟩ := Prog.runs_ret.mp h'
    exact Or.inr (Or.inl ⟨rfl, rfl⟩)
  · exact Or.inr (Or.inr ⟨b, bs, es', rfl, h'⟩)

section All
variable {P : Op φ → Prop}

theorem tryForward_all {args : TcpArgs φ}
    (hadd : ∀ ce, P (.addEntry ce args.newSocketFd args.clientAddress .ingressT .tcp))
    (hroute : ∀ pId, P (.getRouteList pId))
    (hsend : ∀ message dst port, P (.sendAndWaitResponse message dst port)) (st : Entering)
    (readSize : Nat) : (tryForward args st readSize).All P := by
  refine (addEntry_all (hadd _)).bind fun _ => ?_
  refine (getRouteList_all hroute _).bind fun path => ?_
  cases path with
  | nil => trivial
  | cons hop hops => exact (forward_all hsend ..).bind fun _ => trivial

theorem catchFailure_all (stop : Stop) : (catchFailure stop : Handler φ Turn).All P := by
  unfold catchFailure
  split <;> trivial

theorem enteringRound_all (self : Self) {args : TcpArgs φ}
    (hadd : ∀ ce, P (.addEntry ce args.newSocketFd args.clientAddress .ingressT .tcp))
    (hroute : ∀ pId, P (.getRouteList pId))
    (hsend : ∀ message dst port, P (.sendAndWaitResponse message dst port)) (st : Entering)
    (received : List Byte) : (enteringRound self args st received).All P := by
  refine (classifyPkt_all _ _ _).bind fun sfcid => ?_
  split
  · refine (checked_all _).bind fun headers => ?_
    refine ((tryForward_all hadd hroute hsend _ _).rescue catchFailure_all).bind fun turn => ?_
    cases turn <;> trivial
  · trivial

/-- The receive loop only touches the descriptor it was started for. -/
theorem enteringLoop_all (self : Self) {args : TcpArgs φ}
    (hrecv : P (.recv args.newSocketFd bufferSize))
    (hadd : ∀ ce, P (.addEntry ce args.newSocketFd args.clientAddress .ingressT .tcp))
    (hroute : ∀ pId, P (.getRouteList pId))
    (hsend : ∀ message dst port, P (.sendAndWaitResponse message dst port)) (n : Nat)
    (st : Entering) : (enteringLoop self args n st).All P := by
  induction n generalizing st with
  | zero => trivial
  | succ n ih =>
    refine ⟨hrecv, fun reply => ?_⟩
    match reply with
    | none => trivial
    | some [] => trivial
    | some (b :: bs) =>
      refine (enteringRound_all self hadd hroute hsend st (b :: bs)).bind fun next => ?_
      dsimp only
      split
      · exact ih _
      · trivial

theorem afterLoop_all {args : TcpArgs φ} (hdelete : ∀ ce, P (.deleteEntry ce))
    (hclose : P (.close args.newSocketFd)) (readSize : Nat) (st : Entering) :
    (afterLoop args readSize st).All P := by
  refine Prog.All.bind ?_ fun _ => ?_
  · split
    · exact deleteEntry_all (hdelete _)
    · trivial
  · split
    · exact ⟨hclose, fun _ => trivial⟩
    · trivial

theorem manageEnteringUdpPackets_all (self : Self) {args : UdpArgs φ}
    (hadd : ∀ ce, P (.addEntry ce args.socketFd args.clientAddress .ingressT .udp))
    (hroute : ∀ pId, P (.getRouteList pId))
    (hsend : ∀ message dst port, P (.sendAndWaitResponse message dst port)) :
    (manageEnteringUdpPackets self args).All P := by
  refine (classifyPkt_all _ _ _).bind fun sfcid => ?_
  refine (checked_all _).bind fun headers => ?_
  refine (addEntry_all (hadd _)).bind fun _ => ?_
  refine (getRouteList_all hroute _).bind fun path => ?_
  cases path with
  | nil => trivial
  | cons hop hops => exact forward_all hsend ..

theorem managePktFromChain_all {args : UdpArgs φ} (hack : P (.sendto args.socketFd ack args.clientAddress))
    (hfind : ∀ ce, P (.retrieveConnection2 ce)) (hsend : ∀ fd bytes, P (.send fd bytes))
    (hshutdown : ∀ fd how, P (.shutdown fd how)) (hclose : ∀ fd, P (.close fd))
    (hsendto : ∀ fd bytes addr, P (.sendto fd bytes addr)) (hdelete : ∀ ce, P (.deleteEntry ce)) :
    (managePktFromChain args).All P := by
  have hpay (pktCalc : Nat) : (payloadFrom args pktCalc).All P := by
    unfold payloadFrom
    split <;> trivial
  refine ⟨hack, fun _ => (checked_all _).bind fun ipHdr => ⟨hfind _, fun sock => ?_⟩⟩
  dsimp only
  split
  · refine (hpay _).bind fun payload => ⟨hsend _ _, fun respC => ?_⟩
    change Prog.All _ (if respC < 0 then _ else _)
    split
    · trivial
    · exact ⟨hshutdown _ _, fun _ => ⟨hclose _, fun _ => trivial⟩⟩
  · refine (hpay _).bind fun payload => ⟨hsendto _ _ _, fun respC => ?_⟩
    change Prog.All _ (if respC < 0 then _ else _)
    split
    · trivial
    · exact deleteEntry_all (hdelete _)

end All

end Ironhide.Model.Ingress
