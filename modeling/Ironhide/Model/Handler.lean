import Ironhide.Lib.Program
import Ironhide.Model.Endpoint
import Ironhide.Model.SfcHeader
import Ironhide.Model.Classifier

namespace Ironhide.Model
open Lib.Bytes Lib.Program PacketUtils SfcUtilities

structure TcpArgs (φ : Type) where
  newSocketFd : φ
  clientAddress : SockaddrIn
  deriving DecidableEq, Repr

/-- `udp_pkt_mngmnt_args`. `pkt` is the buffer, of which `pktLen` bytes were received. -/
structure UdpArgs (φ : Type) where
  socketFd : φ
  clientAddress : SockaddrIn
  pkt : List Byte
  pktLen : Nat
  deriving DecidableEq, Repr

/-- The two closures the egress hands to `GO_ASYNC`. -/
inductive Task (φ : Type) where
  | exitingTcp (pkt : List Byte) (pktLen : Nat) (ce : ConnectionEntry) (socket : φ)
  | exitingUdp (pkt : List Byte) (pktLen : Nat) (ce : ConnectionEntry) (sock : φ)
  deriving DecidableEq, Repr

/-- What a handler does to the world: system calls, and calls on the endpoint,
on roulette and on the clients. -/
inductive Op (φ : Type) where
  | recv (fd : φ) (size : Nat)
  | read (fd : φ) (size : Nat)
  | recvfrom (fd : φ) (size : Nat)
  | send (fd : φ) (bytes : List Byte)
  | sendto (fd : φ) (bytes : List Byte) (addr : SockaddrIn)
  | shutdown (fd : φ) (how : Nat)
  | close (fd : φ)
  | rawSocket (protocol : Nat)
  | bind (fd : φ) (addr : SockaddrIn)
  | connectToServer (dst : String) (port : BitVec 16)
  | addEntry (ce : ConnectionEntry) (fd : φ) (sockin : SockaddrIn) (endpoint : EndpointType)
      (protocol : ProtocolType)
  | updateEntry (ce : ConnectionEntry) (fd : φ) (sockin : SockaddrIn) (endpoint : EndpointType)
  | deleteEntry (ce : ConnectionEntry)
  | retrieveConnection2 (ce : ConnectionEntry)
  | getRouteList (pId : BitVec 32)
  | sendAndWaitResponse (message : List Byte) (dst : String) (port : BitVec 16)
  | goAsync (task : Task φ)
  deriving DecidableEq, Repr

/-- What comes back: no bytes for a result of -1, no descriptor where the call
fails, `false` where `send_and_wait_response` cannot resolve its host. -/
abbrev Reply (φ : Type) : Op φ → Type
  | .recv .. | .read .. | .recvfrom .. => Option (List Byte)
  | .send .. | .sendto .. => Int
  | .shutdown .. | .close .. => Unit
  | .rawSocket .. => Option φ
  | .bind .. => Bool
  | .connectToServer .. => Option (φ × SockaddrIn)
  | .addEntry .. | .updateEntry .. | .deleteEntry .. => Except Exn Unit
  | .retrieveConnection2 .. => φ × SockaddrIn
  | .getRouteList .. => Except Exn (List Address)
  | .sendAndWaitResponse .. => Bool
  | .goAsync .. => Unit

inductive Stop where
  /-- An exception leaves the thread function: `std::terminate`. -/
  | exn (e : Exn)
  /-- `exit(EXIT_FAILURE)` -/
  | exit
  /-- The source has run over the end of an object. -/
  | undefined
  /-- A loop is still going after the given number of rounds. -/
  | running
  deriving DecidableEq, Repr

/-- An uncaught exception, `exit` and whatever an overrun does end the whole process. -/
def Stop.Fatal (stop : Stop) : Prop := stop ≠ .running

instance : DecidablePred Stop.Fatal := fun stop => inferInstanceAs (Decidable (stop ≠ .running))

abbrev Handler (φ α : Type) := Prog (Op φ) (Reply φ) Stop α

/-- What a handler reads from its endpoint. The chain map of the classifier is
a mock in the source; any classification can stand here. -/
structure Self where
  classify : List Byte → Nat → Copied (Except Exn String)
  myIp : String
  extPort : BitVec 16

def Self.source (myIp : String) (extPort : BitVec 16) : Self :=
  ⟨Classifier.classifyPkt, myIp, extPort⟩

variable {φ α : Type}

def raise : Except Exn α → Handler φ α
  | .ok a => .ret a
  | .error e => .throw (.exn e)

def checked (c : Copied α) : Handler φ α :=
  if c.inBounds then .ret c.value else .throw .undefined

def classifyPkt (self : Self) (pkt : List Byte) (pktLen : Nat) : Handler φ String :=
  checked (self.classify pkt pktLen) >>= raise

def addEntry (ce : ConnectionEntry) (fd : φ) (sockin : SockaddrIn) (endpoint : EndpointType)
    (protocol : ProtocolType) : Handler φ Unit :=
  Prog.perform (Op.addEntry ce fd sockin endpoint protocol) >>= raise

def updateEntry (ce : ConnectionEntry) (fd : φ) (sockin : SockaddrIn) (endpoint : EndpointType) :
    Handler φ Unit :=
  Prog.perform (Op.updateEntry ce fd sockin endpoint) >>= raise

def deleteEntry (ce : ConnectionEntry) : Handler φ Unit :=
  Prog.perform (Op.deleteEntry ce) >>= raise

def servicePathId (sfcid : String) : Handler φ (BitVec 32) :=
  raise (stoi sfcid) >>= fun n => .ret (BitVec.ofInt 32 n)

def getRouteList (sfcid : String) : Handler φ (List Address) :=
  servicePathId sfcid >>= fun pId => Prog.perform (Op.getRouteList pId) >>= raise

/-- The key of a connection, from the words and the network-order ports of a header. -/
def connectionEntry (saddr daddr : BitVec 32) (source dest : BitVec 16) (sfcid : String)
    (prt : ProtocolType) : ConnectionEntry where
  ipSrc := intToIp saddr
  ipDst := intToIp daddr
  portSrc := htons source
  portDst := htons dest
  sfcid := sfcid
  prt := prt

/-- The key both `manage_pkt_from_chain` rebuild from an SFC header. -/
def headerEntry (h : SfcHeader) (prt : ProtocolType) : ConnectionEntry :=
  connectionEntry h.sourceAddress h.destinationAddress h.sourcePort h.destinationPort
    (toString h.pId.toNat) prt

def connType (protocol : Byte) : ProtocolType := if protocol = 6 then .tcp else .udp

/-- What the four forwarding paths do with a route: the header for it, the
packet behind the header, and off to the first hop. -/
def forward (sfcid : String) (path : List Address) (hop : Address) (saddr : BitVec 32)
    (source : BitVec 16) (daddr : BitVec 32) (dest : BitVec 16) (direction : Byte)
    (pkt : List Byte) (size : Nat) : Handler φ Unit :=
  servicePathId sfcid >>= fun pId =>
    -- +2 because of ingress & egress
    let ttl := BitVec.ofNat 16 (path.length + 2)
    let flh := createHeader pId 0 (intToIp saddr) source (intToIp daddr) dest ttl direction
    Prog.perform (Op.sendAndWaitResponse (prependHeader pkt size flh) hop.address hop.port) >>=
      fun (resolved : Bool) => if resolved then .ret () else .throw .exit

def overwrite (buffer received : List Byte) : List Byte := received ++ buffer.drop received.length

/-- The source's classifier knows one chain, and ends the thread on packets
that are neither TCP nor UDP or too short to tell. -/
theorem classifyPkt_source (myIp : String) (extPort : BitVec 16) (pkt : List Byte) (pktLen : Nat) :
    (classifyPkt (Self.source myIp extPort) pkt pktLen : Handler φ String) =
      if pktLen > ipHdrLen then
        if ipPktLen pkt ≤ ipHdrLen then
          if (retrieveIpHeader pkt).value.protocol = 6 ∨ (retrieveIpHeader pkt).value.protocol = 17
          then .ret "0"
          else .throw (.exn .outOfRange)
        else .throw .undefined
      else .throw (.exn .outOfRange) := by
  simp only [classifyPkt, Self.source, Classifier.classifyPkt, Classifier.setPkt]
  by_cases hlen : pktLen > ipHdrLen
  · simp only [hlen, if_true, checked, Copied.inBounds_mk, retrieveIpHeader_inBounds,
      decide_eq_true_eq]
    by_cases hcopy : ipPktLen pkt ≤ ipHdrLen
    · by_cases h6 : (retrieveIpHeader pkt).value.protocol = 6
      · simp [hcopy, h6, Classifier.sfcMap, raise]
      · by_cases h17 : (retrieveIpHeader pkt).value.protocol = 17
        · simp [hcopy, h17, Classifier.sfcMap, raise]
        · simp only [hcopy, h6, h17, if_true, if_false, or_self, Classifier.sfcMap, raise,
            Prog.ret_bind]
    · simp [hcopy]
  · simp [hlen, checked, Copied.inBounds, Classifier.sfcMap, raise]

theorem checked_ok {c : Copied α} (h : c.inBounds = true) :
    (checked c : Handler φ α) = .ret c.value := if_pos h

theorem checked_overrun {c : Copied α} (h : ¬ c.inBounds = true) :
    (checked c : Handler φ α) = .throw .undefined := if_neg h

section Bind
variable {β : Type}

@[simp] theorem raise_ok (a : α) : (raise (.ok a) : Handler φ α) = .ret a := rfl

@[simp] theorem raise_error (x : Exn) : (raise (.error x) : Handler φ α) = .throw (.exn x) := rfl

@[simp] theorem addEntry_bind (ce : ConnectionEntry) (fd : φ) (sockin : SockaddrIn)
    (endpoint : EndpointType) (protocol : ProtocolType) (f : Unit → Handler φ β) :
    (addEntry ce fd sockin endpoint protocol >>= f) =
      .op (.addEntry ce fd sockin endpoint protocol) (fun r => raise r >>= f) := rfl

@[simp] theorem updateEntry_bind (ce : ConnectionEntry) (fd : φ) (sockin : SockaddrIn)
    (endpoint : EndpointType) (f : Unit → Handler φ β) :
    (updateEntry ce fd sockin endpoint >>= f) =
      .op (.updateEntry ce fd sockin endpoint) (fun r => raise r >>= f) := rfl

end Bind

section Runs
variable {es : List (Event (Op φ) (Reply φ))}

theorem runs_raise {x : Except Exn α} {out : Except Stop α} (h : (raise x : Handler φ α).Runs es out) :
    es = [] ∧ ((∃ a, x = .ok a ∧ out = .ok a) ∨ ∃ e, x = .error e ∧ out = .error (.exn e)) := by
  cases x with
  | ok a =>
    obtain ⟨rfl, rfl⟩ := Prog.runs_ret.mp h
    exact ⟨rfl, Or.inl ⟨a, rfl, rfl⟩⟩
  | error e =>
    obtain ⟨rfl, rfl⟩ := Prog.runs_throw.mp h
    exact ⟨rfl, Or.inr ⟨e, rfl, rfl⟩⟩

/-- Classifying gives a chain id only if the classifier does. -/
theorem runs_classifyPkt {self : Self} {pkt : List Byte} {pktLen : Nat} {out : Except Stop String}
    (h : (classifyPkt self pkt pktLen : Handler φ String).Runs es out) :
    es = [] ∧ ∀ sfcid, out = .ok sfcid →
      (self.classify pkt pktLen).inBounds = true ∧ (self.classify pkt pktLen).value = .ok sfcid := by
  unfold classifyPkt at h
  by_cases hb : (self.classify pkt pktLen).inBounds = true
  · rw [checked_ok hb] at h
    obtain ⟨rfl, ⟨a, ha, rfl⟩ | ⟨e, _, rfl⟩⟩ := runs_raise h
    · refine ⟨rfl, fun sfcid hs => ?_⟩
      cases hs
      exact ⟨hb, ha⟩
    · exact ⟨rfl, by simp⟩
  · rw [checked_overrun hb] at h
    obtain ⟨rfl, rfl⟩ := Prog.runs_throw.mp h
    exact ⟨rfl, by simp⟩

/-- Asking for a route is one request, for the number the chain id spells. -/
theorem runs_getRouteList {sfcid : String} {out : Except Stop (List Address)}
    (h : (getRouteList sfcid : Handler φ (List Address)).Runs es out) :
    (es = [] ∧ ∃ x, out = .error (.exn x)) ∨
    ∃ n answer, stoi sfcid = .ok n ∧ es = [⟨.getRouteList (BitVec.ofInt 32 n), answer⟩] ∧
      ((∃ path, answer = .ok path ∧ out = .ok path) ∨
        ∃ x, answer = .error x ∧ out = .error (.exn x)) := by
  cases hs : stoi sfcid with
  | error x =>
    simp only [getRouteList, servicePathId, hs, raise_error, Prog.throw_bind, Prog.runs_throw] at h
    exact Or.inl ⟨h.1, x, h.2⟩
  | ok n =>
    simp only [getRouteList, servicePathId, hs, raise_ok, Prog.ret_bind, Prog.perform_bind,
      Prog.runs_op] at h
    obtain ⟨answer, es', rfl, h⟩ := h
    obtain ⟨rfl, hout⟩ := runs_raise h
    exact Or.inr ⟨n, answer, rfl, rfl, hout⟩

/-- Forwarding is one send, of the packet behind the header for the route. -/
theorem runs_forward {sfcid : String} {path : List Address} {hop : Address} {saddr : BitVec 32}
    {source : BitVec 16} {daddr : BitVec 32} {dest : BitVec 16} {direction : Byte}
    {pkt : List Byte} {size : Nat} {out : Except Stop Unit}
    (h : (forward sfcid path hop saddr source daddr dest direction pkt size : Handler φ Unit).Runs
      es out) :
    (es = [] ∧ ∃ x, out = .error (.exn x)) ∨
    ∃ n resolved, stoi sfcid = .ok n ∧
      es = [⟨.sendAndWaitResponse (prependHeader pkt size (createHeader (BitVec.ofInt 32 n) 0
        (intToIp saddr) source (intToIp daddr) dest (BitVec.ofNat 16 (path.length + 2)) direction))
        hop.address hop.port, resolved⟩] ∧
      ((resolved = true ∧ out = .ok ()) ∨ (resolved = false ∧ out = .error .exit)) := by
  cases hs : stoi sfcid with
  | error x =>
    simp only [forward, servicePathId, hs, raise_error, Prog.throw_bind, Prog.runs_throw] at h
    exact Or.inl ⟨h.1, x, h.2⟩
  | ok n =>
    simp only [forward, servicePathId, hs, raise_ok, Prog.ret_bind, Prog.perform_bind,
      Prog.runs_op] at h
    obtain ⟨resolved, es', rfl, h⟩ := h
    cases resolved with
    | false =>
      obtain ⟨rfl, rfl⟩ := Prog.runs_throw.mp h
      exact Or.inr ⟨n, false, rfl, rfl, Or.inr ⟨rfl, rfl⟩⟩
    | true =>
      obtain ⟨rfl, rfl⟩ := Prog.runs_ret.mp h
      exact Or.inr ⟨n, true, rfl, rfl, Or.inl ⟨rfl, rfl⟩⟩

end Runs

section All
variable {P : Op φ → Prop}

theorem raise_all (x : Except Exn α) : (raise x : Handler φ α).All P := by
  cases x <;> trivial

theorem checked_all (c : Copied α) : (checked c : Handler φ α).All P := by
  unfold checked
  split <;> trivial

theorem classifyPkt_all (self : Self) (pkt : List Byte) (pktLen : Nat) :
    (classifyPkt self pkt pktLen : Handler φ String).All P :=
  (checked_all _).bind fun x => raise_all x

theorem servicePathId_all (sfcid : String) : (servicePathId sfcid : Handler φ (BitVec 32)).All P :=
  (raise_all _).bind fun _ => trivial

theorem addEntry_all {ce : ConnectionEntry} {fd : φ} {sockin : SockaddrIn}
    {endpoint : EndpointType} {protocol : ProtocolType}
    (h : P (.addEntry ce fd sockin endpoint protocol)) :
    (addEntry ce fd sockin endpoint protocol).All P :=
  ⟨h, raise_all⟩

theorem updateEntry_all {ce : ConnectionEntry} {fd : φ} {sockin : SockaddrIn}
    {endpoint : EndpointType} (h : P (.updateEntry ce fd sockin endpoint)) :
    (updateEntry ce fd sockin endpoint).All P :=
  ⟨h, raise_all⟩

theorem deleteEntry_all {ce : ConnectionEntry} (h : P (.deleteEntry ce)) :
    (deleteEntry ce).All P :=
  ⟨h, raise_all⟩

theorem getRouteList_all (h : ∀ pId, P (.getRouteList pId)) (sfcid : String) :
    (getRouteList sfcid).All P :=
  (servicePathId_all sfcid).bind fun pId => ⟨h pId, raise_all⟩

theorem forward_all (h : ∀ message dst port, P (.sendAndWaitResponse message dst port))
    (sfcid : String) (path : List Address) (hop : Address) (saddr : BitVec 32)
    (source : BitVec 16) (daddr : BitVec 32) (dest : BitVec 16) (direction : Byte)
    (pkt : List Byte) (size : Nat) :
    (forward sfcid path hop saddr source daddr dest direction pkt size).All P := by
  refine (servicePathId_all sfcid).bind fun pId => ⟨h _ _ _, fun resolved => ?_⟩
  cases resolved <;> trivial

end All

section Performs
variable {T : Lib.StdMap.MapOps ConnectionEntry} [Descriptor φ]

/-- A handler's operation as its endpoint sees it: the table operations change
it as their bodies do, whatever roulette answers, and the others do not. -/
def Endpoint.Performs (e : Endpoint T φ) : (o : Op φ) → Reply φ o → Endpoint T φ → Prop
  | .addEntry ce fd sockin endpoint protocol, r, e' => ∃ answer,
    r = (e.addEntry ce fd sockin endpoint protocol answer).result ∧
      e' = (e.addEntry ce fd sockin endpoint protocol answer).endpoint
  | .updateEntry ce fd sockin endpoint, r, e' => ∃ answer,
    r = (e.updateEntry ce fd sockin endpoint answer).result ∧
      e' = (e.updateEntry ce fd sockin endpoint answer).endpoint
  | .deleteEntry ce, r, e' => ∃ answer,
    r = (e.deleteEntry ce answer).result ∧ e' = (e.deleteEntry ce answer).endpoint
  | .retrieveConnection2 ce, r, e' => r = e.retrieveConnection2 ce ∧ e' = e
  | _, _, e' => e' = e

/-- Roulette grants everything with an empty answer and routes to one hop; sends
fail on descriptor -1 only, and every receive brings the same bytes. -/
def Endpoint.serve (e : Endpoint T φ) (fd : φ) (hop : Address) (received : List Byte) :
    (o : Op φ) → Reply φ o × Endpoint T φ
  | .addEntry ce fd sockin endpoint protocol =>
    (.ok (), (e.addEntry ce fd sockin endpoint protocol (.ok "")).endpoint)
  | .updateEntry ce fd sockin endpoint =>
    (.ok (), (e.updateEntry ce fd sockin endpoint (.ok true)).endpoint)
  | .deleteEntry ce => (.ok (), (e.deleteEntry ce (.ok true)).endpoint)
  | .retrieveConnection2 ce => (e.retrieveConnection2 ce, e)
  | .send fd bytes | .sendto fd bytes _ => (if Descriptor.num fd = -1 then -1 else bytes.length, e)
  | .recv _ size | .read _ size | .recvfrom _ size => (some (received.take size), e)
  | .shutdown .. | .close .. | .goAsync .. => ((), e)
  | .rawSocket .. => (some fd, e)
  | .bind .. | .sendAndWaitResponse .. => (true, e)
  | .connectToServer .. => (some (fd, SockaddrIn.zero), e)
  | .getRouteList .. => (.ok [hop], e)

theorem Endpoint.serve_performs (e : Endpoint T φ) (fd : φ) (hop : Address) (received : List Byte)
    (o : Op φ) : e.Performs o (e.serve fd hop received o).1 (e.serve fd hop received o).2 := by
  cases o with
  | addEntry ce fd sockin endpoint protocol => exact ⟨.ok "", by rfl, rfl⟩
  | updateEntry ce fd sockin endpoint => exact ⟨.ok true, rfl, rfl⟩
  | deleteEntry ce =>
    refine ⟨.ok true, ?_, rfl⟩
    simp only [Endpoint.deleteEntry]
    split <;> rfl
  | retrieveConnection2 ce => exact ⟨rfl, rfl⟩
  | _ => rfl

end Performs

/-- A world that grants everything: roulette answers ok and routes to one hop,
every socket call succeeds with the descriptor `fd`. What is received, on any
descriptor, comes off a list, and then there is nothing more. -/
def grant (fd : φ) (hop : Address) :
    List (List Byte) → (o : Op φ) → Reply φ o × List (List Byte)
  | cs, .recv _ size | cs, .read _ size | cs, .recvfrom _ size =>
    (some ((cs.headD []).take size), cs.tail)
  | cs, .send _ bytes | cs, .sendto _ bytes _ => ((bytes.length : Int), cs)
  | cs, .shutdown .. | cs, .close .. | cs, .goAsync .. => ((), cs)
  | cs, .rawSocket .. => (some fd, cs)
  | cs, .bind .. | cs, .sendAndWaitResponse .. => (true, cs)
  | cs, .connectToServer .. => (some (fd, SockaddrIn.zero), cs)
  | cs, .addEntry .. | cs, .updateEntry .. | cs, .deleteEntry .. => (.ok (), cs)
  | cs, .retrieveConnection2 .. => ((fd, SockaddrIn.zero), cs)
  | cs, .getRouteList .. => (.ok [hop], cs)

end Ironhide.Model
